/-
The file `nodes.conf`, `ClusterCommandHandler::save_config` in `crates/cluster/src/commands.rs` and
`init_cluster` in `crates/cluster/src/lib.rs`.

A node writes a line for each node of its table, in whatever order the table is read, and reads the
lines back when it is started. A line is made of eight fields with blanks between them, and it is
read by its words. An empty field is no word: a line of a node without slots has seven words and is
not read at all, and in the line of a node without flags every later word is taken for the one
before it. Nothing in the file says which of the lines is the node's own; the name is taken from the
first line whose first word is forty bytes long. And the slot vector is not written.
-/
import ValkeyRs.ClusterCommands
import ValkeyRs.Words

set_option autoImplicit false

open ValkeyRs Text Runs Words Newest List Std

namespace ValkeyRs.Cluster

/-! ## Writing -/

/-- `Vec<&str>::join` with a separator of one character. -/
def join (sep : Char) (parts : List String) : String :=
  String.ofList ([sep].intercalate (parts.map String.toList))

def NodeFlags.names (self : NodeFlags) : List String :=
  [(self.myself, "myself"), (self.master, "master"), (self.slave, "slave"), (self.pfail, "pfail"),
    (self.fail, "fail"), (self.noaddr, "noaddr"), (self.handshake, "handshake"),
    (self.noflags, "noflags")].filterMap fun flag => if flag.1 then some flag.2 else none

def NodeFlags.to_str (self : NodeFlags) : String := join ',' self.names

/-- `Display for NodeRole`. -/
def NodeRole.to_str : NodeRole → String
  | .Master => "master"
  | .Slave => "slave"

def SlotRange.to_str (r : SlotRange) : String :=
  if r.start = r.end then toString r.start.toNat
  else toString r.start.toNat ++ "-" ++ toString r.end.toNat

def NodeInfo.conf_line (node : NodeInfo) : String :=
  join ' ' [node.id, node.addr, node.flags.to_str, node.role.to_str, toString node.epoch.toNat, "0",
    "0", join ' ' (node.slots.map SlotRange.to_str)]

/-- `save_config`: what is written when the table is read in the given order. -/
def save_config (order : List NodeInfo) : String :=
  String.join (order.map fun node => node.conf_line ++ "\n")

/-! ## Reading -/

/-- `load_or_generate_node_id`. -/
def load_or_generate_node_id (content : String) (seed : ℕ) : String :=
  ((lines content).findSome? fun line =>
    match split_whitespace line with
    | id :: _ => if id.utf8ByteSize = 40 then some id else none
    | [] => none).getD (generate_node_id seed)

/-- `str::split` at a character. -/
def split_char (sep : Char) (s : String) : List String := (s.toList.splitOn sep).map String.ofList

def NodeFlags.set (flags : NodeFlags) (name : String) : NodeFlags :=
  if name = "myself" then { flags with myself := true }
  else if name = "master" then { flags with master := true }
  else if name = "slave" then { flags with slave := true }
  else if name = "pfail" then { flags with pfail := true }
  else if name = "fail" then { flags with fail := true }
  else if name = "noaddr" then { flags with noaddr := true }
  else if name = "handshake" then { flags with handshake := true }
  else flags

def parse_flags (field : String) : NodeFlags := (split_char ',' field).foldl NodeFlags.set {}

def parse_range (field : String) : Option SlotRange :=
  if '-' ∈ field.toList then
    match split_char '-' field with
    | [first, last] =>
      match parse_u16 first, parse_u16 last with
      | some start, some «end» => some ⟨start, «end»⟩
      | _, _ => none
    | _ => none
  else (parse_u16 field).map fun slot => ⟨slot, slot⟩

def parse_epoch (field : String) : UInt64 :=
  match parse_nat (some 64) field with
  | .ok n => UInt64.ofNat n
  | .error _ => 0

def parse_conf_line (line : String) : Option NodeInfo :=
  let line := trim line
  if line = "" ∨ line.toList.head? = some '#' then none
  else
    match split_whitespace line with
    | id :: addr :: flags :: role :: epoch :: _ :: _ :: slot :: slots =>
      some {
        id := id
        addr := addr
        role := if role = "slave" then .Slave else .Master
        epoch := parse_epoch epoch
        flags := parse_flags flags
        slots := (slot :: slots).filterMap parse_range }
    | _ => none

def load_nodes_conf (nodes : ExtTreeMap String NodeInfo) (content : String) :
    ExtTreeMap String NodeInfo :=
  (lines content).foldl
    (fun nodes line =>
      match parse_conf_line line with
      | some info => nodes.insert info.id info
      | none => nodes)
    nodes

def starting (id bind_addr : String) : NodeInfo :=
  { NodeInfo.new id bind_addr .Master with flags := { myself := true, master := true } }

/-- `init_cluster` with a file. -/
def init_cluster (bind_addr content : String) (seed : ℕ) : FullState :=
  let s := FullState.new (starting (load_or_generate_node_id content seed) bind_addr)
  { s with nodes := load_nodes_conf s.nodes content }

/-! ## Words of a line -/

/-- A text that is one word. -/
def IsWord (s : String) : Prop := Word is_whitespace s.toList

theorem isWord_of_mem {w s : String} (h : w ∈ split_whitespace s) : IsWord w := by
  obtain ⟨cs, hcs, rfl⟩ := mem_map.mp h
  unfold IsWord
  rw [String.toList_ofList]
  exact word_of_mem_words hcs

theorem split_whitespace_trim (s : String) : split_whitespace (trim s) = split_whitespace s := by
  have hwords : words is_whitespace (trim s).toList = words is_whitespace s.toList := by
    rw [trim, String.toList_ofList, words_rdropWhile, words_dropWhile]
  exact congrArg (List.map String.ofList) hwords

theorem trim_head {s w : String} {ws : List String} (h : split_whitespace s = w :: ws) :
    (trim s).toList.head? = w.toList.head? := by
  rw [← split_whitespace_trim] at h
  cases hchars : (trim s).toList with
  | nil => simp [split_whitespace, hchars] at h
  | cons a cs =>
    have ha : is_whitespace a = false := by
      obtain ⟨rest, hrest⟩ := rdropWhile_prefix is_whitespace (s.toList.dropWhile is_whitespace)
      have hdrop := List.head?_dropWhile_not is_whitespace s.toList
      rw [trim, String.toList_ofList] at hchars
      rw [← hrest, hchars] at hdrop
      exact hdrop
    obtain ⟨v, vs, hv⟩ := exists_words_cons ha cs
    have hfirst : split_whitespace (trim s) = ((a :: v) :: vs).map String.ofList := by
      rw [← hv, ← hchars]
      rfl
    rw [hfirst, map_cons] at h
    rw [← (List.cons.inj h).1, String.toList_ofList]
    rfl

/-- The record that is read from the words of a line that is no comment. -/
def record_of_words : List String → Option NodeInfo
  | id :: addr :: flags :: role :: epoch :: _ :: _ :: slot :: slots =>
    some {
      id := id
      addr := addr
      role := if role = "slave" then .Slave else .Master
      epoch := parse_epoch epoch
      flags := parse_flags flags
      slots := (slot :: slots).filterMap parse_range }
  | _ => none

variable {line : String} {info : NodeInfo}

theorem parse_conf_line_nil (h : split_whitespace line = []) : parse_conf_line line = none := by
  unfold parse_conf_line
  dsimp only
  rw [split_whitespace_trim, h]
  split <;> rfl

theorem parse_conf_line_cons {id : String} {rest : List String}
    (h : split_whitespace line = id :: rest) : parse_conf_line line =
      if id.toList.head? = some '#' then none else record_of_words (id :: rest) := by
  have hne : trim line ≠ "" := by
    intro hempty
    have hwords := split_whitespace_trim line
    rw [hempty, h] at hwords
    cases hwords
  unfold parse_conf_line
  dsimp only
  rw [split_whitespace_trim, trim_head h, h]
  simp only [hne, false_or]
  rfl

theorem parse_conf_line_some (h : parse_conf_line line = some info) :
    (∃ rest, split_whitespace line = info.id :: rest) ∧ info.id.toList.head? ≠ some '#' ∧
      IsWord info.addr ∧ ∃ field, info.flags = parse_flags field := by
  cases hwords : split_whitespace line with
  | nil =>
    rw [parse_conf_line_nil hwords] at h
    cases h
  | cons id rest =>
    rw [parse_conf_line_cons hwords] at h
    split at h
    · cases h
    · rename_i hcomment
      unfold record_of_words at h
      split at h
      · rename_i heq
        obtain ⟨rfl, rfl⟩ := List.cons.inj heq
        cases h
        refine ⟨⟨_, rfl⟩, hcomment, isWord_of_mem (s := line) ?_, _, rfl⟩
        rw [hwords]
        exact mem_cons_of_mem _ mem_cons_self
      · cases h

/-! ## Fields -/

theorem toList_join (sep : Char) (parts : List String) :
    (join sep parts).toList = [sep].intercalate (parts.map String.toList) := String.toList_ofList

theorem split_char_join {sep : Char} {parts : List String} (h : ∀ s ∈ parts, sep ∉ s.toList)
    (hne : parts ≠ []) : split_char sep (join sep parts) = parts := by
  have hsplit : ([sep].intercalate (parts.map String.toList)).splitOn sep = parts.map String.toList := by
    refine splitOn_intercalate sep ?_ (by simpa using hne)
    intro l hl
    obtain ⟨s, hs, rfl⟩ := mem_map.mp hl
    exact h s hs
  unfold split_char
  rw [toList_join, hsplit, map_map]
  conv_rhs => rw [← map_id parts]
  exact map_congr_left fun s _ => String.ofList_toList

theorem names_spec (f : NodeFlags) : ∀ s ∈ f.names, ',' ∉ s.toList ∧ IsWord s := by
  have hall : ["myself", "master", "slave", "pfail", "fail", "noaddr", "handshake", "noflags"].all
      (fun s => !s.toList.contains ',' && !s.toList.isEmpty && s.toList.all (!is_whitespace ·)) =
        true := by
    decide +kernel
  intro s hs
  obtain ⟨flag, hflag, heq⟩ := mem_filterMap.mp hs
  have hname : s = flag.2 := by
    split at heq
    · exact (Option.some.inj heq).symm
    · cases heq
  have hmem : s ∈ ["myself", "master", "slave", "pfail", "fail", "noaddr", "handshake", "noflags"] := by
    rw [hname]
    exact mem_map_of_mem (f := Prod.snd) hflag
  have hs := all_eq_true.mp hall s hmem
  simp only [Bool.and_eq_true, Bool.not_eq_true', contains_eq_mem, decide_eq_false_iff_not,
    isEmpty_eq_false_iff, all_eq_true] at hs
  exact ⟨hs.1.1, hs.1.2, hs.2⟩

/-- The names are all read but for `noflags`. -/
theorem set_names {f : NodeFlags} (h : f.noflags = false) : f.names.foldl NodeFlags.set {} = f := by
  obtain ⟨myself, master, slave, pfail, fail, noaddr, handshake, noflags⟩ := f
  obtain rfl : noflags = false := h
  revert myself master slave pfail fail noaddr handshake
  decide +kernel

theorem parse_flags_to_str {f : NodeFlags} (h : f.noflags = false) (hne : f.names ≠ []) :
    parse_flags f.to_str = f := by
  rw [parse_flags, NodeFlags.to_str, split_char_join (fun s hs => (names_spec f s hs).1) hne,
    set_names h]

/-- No text sets `noflags`. -/
theorem parse_flags_noflags (field : String) : (parse_flags field).noflags = false := by
  have hset : ∀ (f : NodeFlags) (name : String), f.noflags = false → (f.set name).noflags = false := by
    intro f name hf
    unfold NodeFlags.set
    repeat' split
    all_goals exact hf
  unfold parse_flags
  generalize split_char ',' field = names
  have hinit : ({} : NodeFlags).noflags = false := rfl
  revert hinit
  generalize ({} : NodeFlags) = f
  induction names generalizing f with
  | nil => exact id
  | cons name names ih => exact fun hf => ih _ (hset f name hf)

theorem words_to_str (f : NodeFlags) :
    words is_whitespace f.to_str.toList = if f.names = [] then [] else [f.to_str.toList] := by
  unfold NodeFlags.to_str
  cases hnames : f.names with
  | nil => rfl
  | cons name names =>
    have hname := (names_spec f name (by rw [hnames]; exact mem_cons_self)).2
    rw [if_neg (cons_ne_nil _ _)]
    refine words_of_word ⟨?_, fun c hc => ?_⟩
    · rw [toList_join]
      intro hempty
      cases names with
      | nil => exact hname.ne_nil (by simpa using hempty)
      | cons name' names =>
        simp at hempty
    · rw [toList_join] at hc
      rcases mem_intercalate hc with rfl | ⟨w, hw, hcw⟩
      · decide
      · obtain ⟨s, hs, rfl⟩ := mem_map.mp hw
        exact (names_spec f s (by rw [hnames]; exact hs)).2.no_sep c hcw

theorem digits_no_sep {n : ℕ} {c : Char} (hc : c ∈ (toString n).toList) :
    is_whitespace c = false ∧ c ≠ '-' := by
  rw [Nat.toString_eq_repr, Nat.toList_repr] at hc
  have hdigit := isDigit_of_mem_toDigits hc
  have hrange : 48 ≤ c.toNat ∧ c.toNat ≤ 57 := by
    simp only [Char.isDigit, Bool.and_eq_true, decide_eq_true_eq] at hdigit
    exact hdigit
  refine ⟨?_, ?_⟩
  · unfold is_whitespace
    obtain ⟨hlo, hhi⟩ := hrange
    generalize c.toNat = n at hlo hhi
    interval_cases n <;> rfl
  · rintro rfl
    cases hdigit

theorem isWord_toString (n : ℕ) : IsWord (toString n) := by
  obtain ⟨c, cs, hcs, -⟩ := toDigits_cons n
  refine ⟨?_, fun c hc => (digits_no_sep hc).1⟩
  rw [Nat.toString_eq_repr, Nat.toList_repr, hcs]
  exact cons_ne_nil _ _

theorem parse_u16_toString (n : UInt16) : parse_u16 (toString n.toNat) = some n := by
  have hlt := n.toNat_lt
  have hparse : parse_nat (some 16) (toString n.toNat) = .ok n.toNat :=
    parse_unsigned_repr _ _ (decide_eq_true (by omega : n.toNat ≤ 2 ^ 16 - 1))
  unfold parse_u16
  rw [hparse]
  exact congrArg some (UInt16.ofNat_toNat)

theorem parse_epoch_toString (n : UInt64) : parse_epoch (toString n.toNat) = n := by
  have hlt := n.toNat_lt
  have hparse : parse_nat (some 64) (toString n.toNat) = .ok n.toNat :=
    parse_unsigned_repr _ _ (decide_eq_true (by omega : n.toNat ≤ 2 ^ 64 - 1))
  unfold parse_epoch
  rw [hparse]
  exact UInt64.ofNat_toNat

theorem toList_range_to_str {r : SlotRange} (h : r.start ≠ r.end) :
    r.to_str = join '-' [toString r.start.toNat, toString r.end.toNat] := by
  rw [← String.toList_inj, SlotRange.to_str, if_neg h, toList_join]
  simp [intercalate_cons_cons]

theorem parse_range_to_str (r : SlotRange) : parse_range r.to_str = some r := by
  have hdash : ∀ n : ℕ, '-' ∉ (toString n).toList := fun n hmem => (digits_no_sep hmem).2 rfl
  unfold parse_range
  by_cases h : r.start = r.end
  · have htext : r.to_str = toString r.start.toNat := if_pos h
    rw [htext, if_neg (hdash _), parse_u16_toString]
    obtain ⟨start, stop⟩ := r
    obtain rfl : start = stop := h
    rfl
  · have hmem : '-' ∈ r.to_str.toList := by
      rw [SlotRange.to_str, if_neg h]
      simp
    have hsplit : split_char '-' r.to_str = [toString r.start.toNat, toString r.end.toNat] := by
      rw [toList_range_to_str h]
      refine split_char_join (fun s hs => ?_) (cons_ne_nil _ _)
      simp only [mem_cons, not_mem_nil, or_false] at hs
      rcases hs with rfl | rfl <;> exact hdash _
    rw [if_pos hmem, hsplit]
    simp only [parse_u16_toString]

theorem isWord_range (r : SlotRange) : IsWord r.to_str := by
  by_cases h : r.start = r.end
  · rw [SlotRange.to_str, if_pos h]
    exact isWord_toString _
  · refine ⟨?_, fun c hc => ?_⟩
    · rw [SlotRange.to_str, if_neg h]
      simp
    · rw [SlotRange.to_str, if_neg h, String.toList_append, String.toList_append] at hc
      simp only [mem_append] at hc
      rcases hc with (hc | hc) | hc
      · exact (digits_no_sep hc).1
      · rw [mem_singleton.mp hc]
        rfl
      · exact (digits_no_sep hc).1

theorem filterMap_parse_range (slots : List SlotRange) :
    (slots.map SlotRange.to_str).filterMap parse_range = slots := by
  rw [filterMap_map]
  exact (filterMap_congr fun r _ => parse_range_to_str r).trans filterMap_some

theorem isWord_of_all {s : String} (h : (!s.toList.isEmpty && s.toList.all (!is_whitespace ·)) = true) :
    IsWord s := by
  simp only [Bool.and_eq_true, Bool.not_eq_true', isEmpty_eq_false_iff, all_eq_true] at h
  exact ⟨h.1, h.2⟩

theorem isWord_zero : IsWord "0" := isWord_of_all (by decide +kernel)

theorem isWord_role (role : NodeRole) : IsWord role.to_str := by
  refine isWord_of_all ?_
  cases role <;> decide +kernel

/-! ## Lines -/

/-- A node whose name and address are words. -/
structure Clean (info : NodeInfo) : Prop where
  id : IsWord info.id
  addr : IsWord info.addr

def NodeInfo.conf_words (info : NodeInfo) : List String :=
  info.id :: info.addr :: ((if info.flags.names = [] then [] else [info.flags.to_str]) ++
    info.role.to_str :: toString info.epoch.toNat :: "0" :: "0" :: info.slots.map SlotRange.to_str)

theorem split_conf_line (h : Clean info) : split_whitespace info.conf_line = info.conf_words := by
  have hslots : words is_whitespace (join ' ' (info.slots.map SlotRange.to_str)).toList =
      (info.slots.map SlotRange.to_str).map String.toList := by
    rw [toList_join, words_intercalate rfl]
    generalize hranges : info.slots.map SlotRange.to_str = ranges
    have hall : ∀ s ∈ ranges, IsWord s := by
      rw [← hranges]
      intro s hs
      obtain ⟨r, -, rfl⟩ := mem_map.mp hs
      exact isWord_range r
    clear hranges
    induction ranges with
    | nil => rfl
    | cons s ranges ih =>
      rw [map_cons, flatMap_cons, words_of_word (hall s mem_cons_self),
        ih fun s hs => hall s (mem_cons_of_mem _ hs)]
      rfl
  have hwords : words is_whitespace info.conf_line.toList = info.conf_words.map String.toList := by
    rw [NodeInfo.conf_line, toList_join, words_intercalate rfl]
    simp only [map_cons, map_nil, flatMap_cons, flatMap_nil, append_nil,
      words_of_word h.id, words_of_word h.addr, words_to_str, words_of_word (isWord_role info.role),
      words_of_word (isWord_toString info.epoch.toNat), words_of_word isWord_zero, hslots]
    unfold NodeInfo.conf_words
    split <;> rfl
  have hback : split_whitespace info.conf_line =
      (info.conf_words.map String.toList).map String.ofList := by
    rw [← hwords]
    rfl
  rw [hback, map_map]
  conv_rhs => rw [← map_id info.conf_words]
  exact map_congr_left fun s _ => String.ofList_toList

/-- A node that is read from its line. -/
structure Readable (info : NodeInfo) : Prop where
  clean : Clean info
  no_comment : info.id.toList.head? ≠ some '#'
  flags : info.flags.names ≠ []
  noflags : info.flags.noflags = false
  slots : info.slots ≠ []

theorem parse_own_line (h : Readable info) : parse_conf_line info.conf_line = some info := by
  have hwords := split_conf_line h.clean
  rw [parse_conf_line_cons hwords, if_neg h.no_comment, if_neg h.flags]
  cases hslots : info.slots with
  | nil => exact absurd hslots h.slots
  | cons r slots =>
    have hranges := filterMap_parse_range info.slots
    rw [hslots] at hranges
    have hrole : (if info.role.to_str = "slave" then NodeRole.Slave else .Master) = info.role := by
      cases info.role <;> decide
    simp only [singleton_append, map_cons, record_of_words, parse_epoch_toString,
      parse_flags_to_str h.noflags h.flags, hrole]
    rw [← map_cons, hranges, ← hslots]

/-- Only such a node is: without flags the role is read for them, and without slots there are seven
words. -/
theorem readable_of_parse (h : Clean info)
    (hparse : parse_conf_line info.conf_line = some info) : Readable info := by
  obtain ⟨-, hcomment, -, field, hfield⟩ := parse_conf_line_some hparse
  have hnoflags : info.flags.noflags = false := by
    rw [hfield]
    exact parse_flags_noflags field
  have hwords := split_conf_line h
  rw [parse_conf_line_cons hwords, if_neg hcomment] at hparse
  have hrole : ∀ role : NodeRole, (parse_flags role.to_str).names ≠ [] := by
    intro role
    cases role <;> decide +kernel
  by_cases hflags : info.flags.names = []
  · rw [if_pos hflags, nil_append] at hparse
    -- the role stands where the flags should
    have hread : parse_flags info.role.to_str = info.flags := by
      rcases hslots : info.slots with _ | ⟨r₁, _ | ⟨r₂, rest⟩⟩
      · rw [hslots] at hparse
        cases hparse
      · rw [hslots] at hparse
        cases hparse
      · rw [hslots] at hparse
        exact congrArg NodeInfo.flags (Option.some.inj hparse)
    exact absurd hflags (hread ▸ hrole info.role)
  · refine ⟨h, hcomment, hflags, hnoflags, fun hslots => ?_⟩
    rw [if_neg hflags, hslots] at hparse
    cases hparse

theorem parse_starting {id bind_addr : String} (h : Clean (starting id bind_addr)) :
    parse_conf_line (starting id bind_addr).conf_line = none := by
  rw [parse_conf_line_cons (split_conf_line h)]
  split
  · rfl
  · rfl

/-! ## The file -/

theorem mem_conf_line (h : Clean info) {c : Char} (hc : c ∈ info.conf_line.toList) :
    c = ' ' ∨ is_whitespace c = false := by
  rw [NodeInfo.conf_line, toList_join] at hc
  rcases mem_intercalate hc with hsep | ⟨w, hw, hcw⟩
  · exact .inl hsep
  simp only [map_cons, map_nil, mem_cons, not_mem_nil, or_false] at hw
  rcases hw with rfl | rfl | rfl | rfl | rfl | rfl | rfl | rfl
  · exact .inr (h.id.no_sep c hcw)
  · exact .inr (h.addr.no_sep c hcw)
  · rw [NodeFlags.to_str, toList_join] at hcw
    rcases mem_intercalate hcw with rfl | ⟨w, hw, hcw⟩
    · exact .inr rfl
    · obtain ⟨s, hs, rfl⟩ := mem_map.mp hw
      exact .inr ((names_spec _ s hs).2.no_sep c hcw)
  · exact .inr ((isWord_role _).no_sep c hcw)
  · exact .inr ((isWord_toString _).no_sep c hcw)
  · exact .inr (isWord_zero.no_sep c hcw)
  · exact .inr (isWord_zero.no_sep c hcw)
  · rw [toList_join] at hcw
    rcases mem_intercalate hcw with hsep | ⟨w, hw, hcw⟩
    · exact .inl hsep
    · obtain ⟨s, hs, rfl⟩ := mem_map.mp hw
      obtain ⟨r, -, rfl⟩ := mem_map.mp hs
      exact .inr ((isWord_range r).no_sep c hcw)

theorem lines_save_config {order : List NodeInfo} (h : ∀ info ∈ order, Clean info) :
    lines (save_config order) = order.map NodeInfo.conf_line := by
  have hchars : (save_config order).toList =
      (order.map fun info => info.conf_line.toList).flatMap fun l => l ++ ['\n'] := by
    rw [save_config, String.toList_join, flatMap_map, flatMap_map]
    simp only [String.toList_append]
    rfl
  have hend : ∀ info ∈ order, '\n' ∉ info.conf_line.toList ∧ '\r' ∉ info.conf_line.toList := by
    intro info hinfo
    constructor <;> intro hmem <;>
      rcases mem_conf_line (h info hinfo) hmem with hsep | hsep <;> revert hsep <;> decide
  have hsplit : (save_config order).toList.splitOn '\n' =
      (order.map fun info => info.conf_line.toList) ++ [[]] := by
    rw [hchars]
    refine splitOn_flatMap_concat fun l hl => ?_
    obtain ⟨info, hinfo, rfl⟩ := mem_map.mp hl
    exact (hend info hinfo).1
  unfold lines
  dsimp only
  rw [hsplit, List.getLast?_concat, if_pos rfl, dropLast_concat, map_map]
  refine map_congr_left fun info hinfo => ?_
  have hlast : info.conf_line.toList.getLast? ≠ some '\r' :=
    fun hlast => (hend info hinfo).2 (mem_of_getLast? hlast)
  show String.ofList (if _ then _ else _) = _
  rw [if_neg hlast, String.ofList_toList]

theorem load_node_id {order : List NodeInfo} (h : ∀ info ∈ order, Clean info) (seed : ℕ) :
    load_or_generate_node_id (save_config order) seed =
      ((order.map NodeInfo.id).find? (·.utf8ByteSize = 40)).getD (generate_node_id seed) := by
  unfold load_or_generate_node_id
  rw [lines_save_config h]
  congr 1
  induction order with
  | nil => rfl
  | cons info order ih =>
    have hwords := split_conf_line (h info mem_cons_self)
    unfold NodeInfo.conf_words at hwords
    rw [map_cons, map_cons, List.findSome?_cons, List.find?_cons, hwords]
    by_cases hlen : info.id.utf8ByteSize = 40
    · simp only [hlen, if_true, decide_true]
    · simp only [hlen, if_false, decide_false]
      exact ih fun info' hinfo' => h info' (mem_cons_of_mem _ hinfo')

def load_line (nodes : ExtTreeMap String NodeInfo) (line : String) :
    ExtTreeMap String NodeInfo :=
  match parse_conf_line line with
  | some info => nodes.insert info.id info
  | none => nodes

theorem getElem?_load_line (nodes : ExtTreeMap String NodeInfo) (line k : String) :
    (load_line nodes line)[k]? =
      match parse_conf_line line with
      | some info => if k = info.id then some info else nodes[k]?
      | none => nodes[k]? := by
  unfold load_line
  cases parse_conf_line line with
  | none => rfl
  | some info => exact insert_at nodes info.id k info

variable {nodes : ExtTreeMap String NodeInfo}

variable {k : String} {info : NodeInfo}

theorem load_some {ls : List String} (h : (ls.foldl load_line nodes)[k]? = some info) :
    (∃ line, parse_conf_line line = some info) ∨ nodes[k]? = some info := by
  induction ls generalizing nodes with
  | nil => exact .inr h
  | cons line ls ih =>
    rcases ih h with hline | hbefore
    · exact .inl hline
    · rw [getElem?_load_line] at hbefore
      cases hparse : parse_conf_line line with
      | none =>
        rw [hparse] at hbefore
        exact .inr hbefore
      | some r =>
        rw [hparse] at hbefore
        dsimp only at hbefore
        split at hbefore
        · exact .inl ⟨line, hparse.trans hbefore⟩
        · exact .inr hbefore

theorem parse_own_id {r : NodeInfo} (h : Clean info)
    (hparse : parse_conf_line info.conf_line = some r) : r.id = info.id := by
  obtain ⟨⟨rest, hrest⟩, -⟩ := parse_conf_line_some hparse
  exact (List.cons.inj (hrest.symm.trans (split_conf_line h))).1

theorem load_line_other (h : Clean info) (nodes : ExtTreeMap String NodeInfo) (hk : k ≠ info.id) :
    (load_line nodes info.conf_line)[k]? = nodes[k]? := by
  rw [getElem?_load_line]
  cases hparse : parse_conf_line info.conf_line with
  | none => rfl
  | some r =>
    dsimp only
    rw [if_neg (by rw [parse_own_id h hparse]; exact hk)]

theorem load_other {order : List NodeInfo}
    (h : ∀ info ∈ order, Clean info) (hk : k ∉ order.map NodeInfo.id) :
    ((order.map NodeInfo.conf_line).foldl load_line nodes)[k]? = nodes[k]? := by
  induction order generalizing nodes with
  | nil => rfl
  | cons info order ih =>
    obtain ⟨hne, hrest⟩ := ne_and_not_mem_of_not_mem_cons hk
    rw [map_cons, foldl_cons, ih (fun i hi => h i (mem_cons_of_mem _ hi)) hrest,
      load_line_other (h info mem_cons_self) nodes hne]

theorem load_own {order : List NodeInfo}
    (h : ∀ info ∈ order, Clean info) (hnodup : (order.map NodeInfo.id).Nodup)
    (hinfo : info ∈ order) :
    ((order.map NodeInfo.conf_line).foldl load_line nodes)[info.id]? =
      match parse_conf_line info.conf_line with
      | some r => some r
      | none => nodes[info.id]? := by
  induction order generalizing nodes with
  | nil => cases hinfo
  | cons i order ih =>
    obtain ⟨hfirst, hnodup⟩ := nodup_cons.mp hnodup
    have hclean : ∀ info ∈ order, Clean info := fun i hi => h i (mem_cons_of_mem _ hi)
    rw [map_cons, foldl_cons]
    rcases mem_cons.mp hinfo with rfl | hrest
    · rw [load_other hclean hfirst, getElem?_load_line]
      cases hparse : parse_conf_line info.conf_line with
      | none => rfl
      | some r =>
        dsimp only
        rw [if_pos (parse_own_id (h info mem_cons_self) hparse).symm]
    · have hne : info.id ≠ i.id := fun heq => hfirst (heq ▸ mem_map_of_mem hrest)
      rw [ih hclean hnodup hrest, load_line_other (h i mem_cons_self) nodes hne]

/-! ## Names -/

theorem mem_node_id_digits {n state : ℕ} {c : Char} (hc : c ∈ node_id_digits n state) :
    ∃ d < 16, c = Nat.digitChar d := by
  induction n generalizing state with
  | zero => cases hc
  | succ n ih =>
    unfold node_id_digits at hc
    rw [mem_cons] at hc
    rcases hc with hfirst | hrest
    · exact ⟨next_seed state / 2 ^ 32 % 16, Nat.mod_lt _ (by decide), hfirst⟩
    · exact ih hrest

theorem generate_node_id_word (seed : ℕ) :
    IsWord (generate_node_id seed) ∧ (generate_node_id seed).utf8ByteSize = 40 := by
  have hchar : ∀ d < 16, is_whitespace (Nat.digitChar d) = false ∧ (Nat.digitChar d).utf8Size = 1 := by
    intro d hd
    interval_cases d <;> exact ⟨rfl, rfl⟩
  have hlen := length_node_id_digits 40 (seed % 2 ^ 128)
  have hdigits : ∀ c ∈ node_id_digits 40 (seed % 2 ^ 128), is_whitespace c = false ∧ c.utf8Size = 1 := by
    intro c hc
    obtain ⟨d, hd, rfl⟩ := mem_node_id_digits hc
    exact hchar d hd
  unfold generate_node_id IsWord
  revert hlen hdigits
  generalize node_id_digits 40 (seed % 2 ^ 128) = digits
  intro hlen hdigits
  refine ⟨⟨?_, ?_⟩, ?_⟩
  · rw [String.toList_ofList]
    rintro rfl
    cases hlen
  · rw [String.toList_ofList]
    exact fun c hc => (hdigits c hc).1
  · have hsize : String.utf8Len digits = digits.length := by
      clear hlen
      induction digits with
      | nil => rfl
      | cons c digits ih =>
        rw [String.utf8Len_cons, (hdigits c mem_cons_self).2,
          ih fun c hc => hdigits c (mem_cons_of_mem _ hc)]
        rfl
    rw [String.utf8ByteSize_ofList, hsize, hlen]

theorem node_id_word (content : String) (seed : ℕ) :
    IsWord (load_or_generate_node_id content seed) ∧
      (load_or_generate_node_id content seed).utf8ByteSize = 40 := by
  unfold load_or_generate_node_id
  cases hfirst : (lines content).findSome? _ with
  | none => exact generate_node_id_word seed
  | some id =>
    obtain ⟨line, -, hline⟩ := exists_of_findSome?_eq_some hfirst
    cases hwords : split_whitespace line with
    | nil =>
      rw [hwords] at hline
      cases hline
    | cons w ws =>
      rw [hwords] at hline
      dsimp only at hline
      split at hline
      · rename_i hlen
        cases hline
        refine ⟨isWord_of_mem (s := line) ?_, hlen⟩
        rw [hwords]
        exact mem_cons_self
      · cases hline

/-! ## States that can be reached -/

/-- The table has each node under its name, and the node itself. -/
structure Keyed (s : FullState) : Prop where
  id : ∀ (n : String) (info : NodeInfo), s.nodes[n]? = some info → info.id = n
  me : ∃ info, s.nodes[s.myself.id]? = some info

variable {s : FullState}

theorem keyed_insert (h : Keyed s) (info : NodeInfo) :
    Keyed { s with nodes := s.nodes.insert info.id info } := by
  refine ⟨fun n info' hn => ?_, ?_⟩
  · have hn' := (insert_at s.nodes info.id n info).symm.trans hn
    by_cases heq : n = info.id
    · rw [if_pos heq] at hn'
      rw [← Option.some.inj hn', heq]
    · rw [if_neg heq] at hn'
      exact h.id n info' hn'
  · obtain ⟨own, hown⟩ := h.me
    by_cases heq : s.myself.id = info.id
    · exact ⟨info, (insert_at s.nodes info.id _ info).trans (if_pos heq)⟩
    · exact ⟨own, (insert_at s.nodes info.id _ info).trans ((if_neg heq).trans hown)⟩

theorem keyed_set_myself (h : Keyed s) (myself : NodeInfo) : Keyed (s.set_myself myself) := by
  have hinsert := keyed_insert h myself
  exact ⟨hinsert.id, myself, (insert_at s.nodes myself.id _ myself).trans (if_pos rfl)⟩

theorem keyed_of_new {myself : NodeInfo} (h : s.toClusterState = .new myself) : Keyed s := by
  have hget : ∀ n : String, s.nodes[n]? = if n = myself.id then some myself else none := by
    rw [h]
    exact new_nodes myself
  have hmyself : s.myself = myself := congrArg ClusterState.myself h
  refine ⟨fun n info hn => ?_, myself, ?_⟩
  · rw [hget n] at hn
    split at hn
    · rename_i heq
      rw [← Option.some.inj hn, heq]
    · cases hn
  · rw [hget, hmyself, if_pos rfl]

theorem keyed_of_identity {s s' : FullState} (h : Keyed s) (heq : identity s' = identity s) :
    Keyed s' := by
  have hnodes : s'.nodes = s.nodes := congrArg (fun x => x.1.nodes) heq
  have hmyself : s'.myself = s.myself := congrArg (fun x => x.1.myself) heq
  refine ⟨?_, ?_⟩
  · rw [hnodes]
    exact h.id
  · rw [hnodes, hmyself]
    exact h.me

theorem keyed_assign (h : Keyed s) (node_id : String) (ranges : List SlotRange)
    (slots : Fin NUM_SLOTS → Option String) :
    Keyed { s with
      slots := slots
      nodes := s.nodes.modify node_id ({ · with slots := ranges }) } := by
  have hget : ∀ n : String, (s.nodes.modify node_id ({ · with slots := ranges }))[n]? =
      if compare node_id n = .eq then (s.nodes[n]?).map ({ · with slots := ranges })
      else s.nodes[n]? := by
    intro n
    rw [ExtTreeMap.getElem?_modify]
    split
    · rename_i heq
      rw [LawfulEqCmp.eq_of_compare heq]
    · rfl
  refine ⟨fun n info hn => ?_, ?_⟩
  · have hn' := (hget n).symm.trans hn
    split at hn'
    · obtain ⟨old, hold, rfl⟩ := Option.map_eq_some_iff.mp hn'
      exact h.id n old hold
    · exact h.id n info hn'
  · obtain ⟨own, hown⟩ := h.me
    show ∃ info, (s.nodes.modify node_id ({ · with slots := ranges }))[s.myself.id]? = some info
    rw [hget, hown]
    split
    · exact ⟨_, rfl⟩
    · exact ⟨own, rfl⟩

theorem keyed_gossip (h : Keyed s) (msg : GossipMessage) : Keyed (s.handle_gossip msg) := by
  have hnodes : (s.handle_gossip msg).nodes =
      put_all NodeInfo.rank NodeInfo.id s.nodes (msg.records s.myself.id) :=
    congrArg ClusterState.nodes (handle_gossip_eq s.toClusterState msg)
  obtain ⟨hmyself, hown⟩ := handle_gossip_myself s.toClusterState msg
  refine ⟨fun n info hn => ?_, ?_⟩
  · rw [hnodes] at hn
    rcases put_all_cases NodeInfo.rank NodeInfo.id s.nodes (msg.records s.myself.id) n with
      ⟨hold, -⟩ | ⟨new, -, hid, hget, -⟩
    · exact h.id n info (hold.symm.trans hn)
    · rw [← Option.some.inj (hget.symm.trans hn)]
      exact hid
  · obtain ⟨own, hme⟩ := h.me
    refine ⟨own, ?_⟩
    have hid : (s.handle_gossip msg).myself = s.myself := hmyself
    rw [hid]
    exact hown.trans hme

theorem keyed_step (lossy : Bytes → String) {s : FullState} (h : Keyed s) (e : ClusterEvent) :
    Keyed (e.step lossy s) := by
  unfold ClusterEvent.step ClusterEvent.outcome
  cases e with dsimp only
  | MEET seed args =>
    unfold cluster_meet
    split
    · exact keyed_insert h
        { NodeInfo.new (generate_node_id seed) _ .Master with flags := { handshake := true } }
    · exact h
  | REPLICATE args =>
    unfold cluster_replicate
    split
    · exact h
    · split
      · exact keyed_set_myself h _
      · exact h
  | FAILOVER args =>
    unfold cluster_failover
    split
    · exact h
    · have hepoch : Keyed (s.set_self_epoch (s.myself.epoch + 1)) := keyed_set_myself h _
      exact keyed_set_myself hepoch _
  | RESET seed args =>
    unfold cluster_reset
    split
    · exact keyed_of_new (s := reset_hard s (generate_node_id seed)) rfl
    · exact keyed_set_myself h _
  | ADDSLOTS args =>
    unfold cluster_addslots
    split
    · exact h
    · exact keyed_of_identity h (write_slots_identity _ _ _ _)
  | DELSLOTS args =>
    unfold cluster_delslots
    split
    · exact h
    · exact keyed_of_identity h (write_slots_identity _ _ _ _)
  | SETSLOT args => exact keyed_of_identity h (setslot_identity lossy args s)
  | BUMPEPOCH =>
    have hepoch : Keyed { s with current_epoch := s.current_epoch + 1 } := ⟨h.id, h.me⟩
    exact keyed_set_myself hepoch _
  | assign_slots node_id ranges =>
    unfold FullState.assign_slots
    split
    · exact h
    · exact keyed_assign h node_id ranges _
  | gossip msg => exact keyed_gossip h msg

theorem keyed_run (lossy : Bytes → String) (myself : NodeInfo) (es : List ClusterEvent) :
    Keyed (run (fun s e => e.step lossy s) (.new myself) es) :=
  run_invariant (I := Keyed) (fun _ e h => keyed_step lossy h e) es (keyed_of_new rfl)

/-! ## What comes back -/

/-- The nodes of the table, in some order. -/
def IsOrder (s : FullState) (order : List NodeInfo) : Prop :=
  order.Perm (s.nodes.toList.map Prod.snd)

/-- What is asked of the node that is started again. -/
structure Restored (s s' : FullState) : Prop where
  id : s'.myself.id = s.myself.id
  nodes : ∀ (n : String) (info : NodeInfo), s.nodes[n]? = some info → s'.nodes[n]? = some info
  owners : ∀ i, s'.slots i = s.slots i

/-- No slot has an owner; the node's name is the only one of forty bytes; and each node has a line
that can be read, but for the node itself when it is as it was started. -/
structure Restorable (bind_addr : String) (s : FullState) : Prop where
  owners : ∀ i, s.slots i = none
  id : IsWord s.myself.id ∧ s.myself.id.utf8ByteSize = 40
  others : ∀ (n : String) (info : NodeInfo), s.nodes[n]? = some info → n ≠ s.myself.id →
    n.utf8ByteSize ≠ 40
  nodes : ∀ (n : String) (info : NodeInfo), s.nodes[n]? = some info →
    Readable info ∨ info = starting s.myself.id bind_addr

section Order

variable {s : FullState} {order : List NodeInfo} (horder : IsOrder s order)

include horder

theorem mem_order_iff {info : NodeInfo} : info ∈ order ↔ ∃ n : String, s.nodes[n]? = some info := by
  rw [horder.mem_iff, mem_map]
  constructor
  · rintro ⟨⟨n, info'⟩, hmem, rfl⟩
    exact ⟨n, ExtTreeMap.mem_toList_iff_getElem?_eq_some.mp hmem⟩
  · rintro ⟨n, hn⟩
    exact ⟨(n, info), ExtTreeMap.mem_toList_iff_getElem?_eq_some.mpr hn, rfl⟩

theorem nodup_order (hkeyed : Keyed s) : (order.map NodeInfo.id).Nodup := by
  rw [(horder.map NodeInfo.id).nodup_iff, map_map]
  have hkeys : s.nodes.toList.map (NodeInfo.id ∘ Prod.snd) = s.nodes.toList.map Prod.fst := by
    refine map_congr_left fun p hp => ?_
    exact hkeyed.id p.1 p.2 (ExtTreeMap.mem_toList_iff_getElem?_eq_some.mp hp)
  rw [hkeys, ExtTreeMap.map_fst_toList_eq_keys]
  exact ExtTreeMap.nodup_keys

end Order

theorem starting_nodes (id bind_addr k : String) :
    (FullState.new (starting id bind_addr)).nodes[k]? =
      if k = id then some (starting id bind_addr) else none :=
  new_nodes (starting id bind_addr) k

theorem init_nodes (bind_addr content : String) (seed : ℕ) :
    (init_cluster bind_addr content seed).nodes = (lines content).foldl load_line
      (FullState.new (starting (load_or_generate_node_id content seed) bind_addr)).nodes := rfl

variable {bind_addr : String}

theorem restored_of_restorable (hbind : IsWord bind_addr) {s : FullState}
    (hkeyed : Keyed s) (h : Restorable bind_addr s) {order : List NodeInfo} (horder : IsOrder s order)
    (seed : ℕ) : Restored s (init_cluster bind_addr (save_config order) seed) := by
  have hclean : ∀ info ∈ order, Clean info := by
    intro info hinfo
    obtain ⟨n, hn⟩ := (mem_order_iff horder).mp hinfo
    rcases h.nodes n info hn with hread | rfl
    · exact hread.clean
    · exact ⟨h.id.1, hbind⟩
  have hid : load_or_generate_node_id (save_config order) seed = s.myself.id := by
    rw [load_node_id hclean]
    obtain ⟨own, hown⟩ := hkeyed.me
    have hmem : s.myself.id ∈ order.map NodeInfo.id :=
      mem_map.mpr ⟨own, (mem_order_iff horder).mpr ⟨_, hown⟩, hkeyed.id _ _ hown⟩
    cases hfind : (order.map NodeInfo.id).find? (·.utf8ByteSize = 40) with
    | none => exact absurd (decide_eq_true h.id.2) (List.find?_eq_none.mp hfind _ hmem)
    | some id =>
      -- no other name is of this length
      obtain ⟨info, hinfo, rfl⟩ := mem_map.mp (mem_of_find?_eq_some hfind)
      obtain ⟨n, hn⟩ := (mem_order_iff horder).mp hinfo
      have hlen : info.id.utf8ByteSize = 40 := by simpa using List.find?_some hfind
      have hname := hkeyed.id n info hn
      by_contra hne
      exact h.others n info hn (fun heq => hne (hname.trans heq)) (hname ▸ hlen)
  refine ⟨hid, fun n info hn => ?_, fun i => (h.owners i).symm⟩
  have hinfo : info ∈ order := (mem_order_iff horder).mpr ⟨n, hn⟩
  rw [init_nodes, lines_save_config hclean, hid, ← hkeyed.id n info hn,
    load_own hclean (nodup_order horder hkeyed) hinfo]
  rcases h.nodes n info hn with hread | rfl
  · rw [parse_own_line hread]
  · rw [parse_starting (hclean _ hinfo)]
    exact (starting_nodes _ _ _).trans (if_pos rfl)

theorem clean_of_restored {content : String} (hbind : IsWord bind_addr) {seed : ℕ}
    {s : FullState} (h : Restored s (init_cluster bind_addr content seed)) {n : String}
    {info : NodeInfo} (hn : s.nodes[n]? = some info) : Clean info := by
  have hget := h.nodes n info hn
  rcases load_some hget with ⟨line, hline⟩ | hstart
  · obtain ⟨⟨rest, hrest⟩, -, haddr, -⟩ := parse_conf_line_some hline
    refine ⟨isWord_of_mem (s := line) ?_, haddr⟩
    rw [hrest]
    exact mem_cons_self
  · rw [starting_nodes] at hstart
    split at hstart
    · cases hstart
      exact ⟨(node_id_word content seed).1, hbind⟩
    · cases hstart

theorem restorable_of_restored (hbind : IsWord bind_addr) {s : FullState}
    (hkeyed : Keyed s) (h : ∀ order seed, IsOrder s order →
      Restored s (init_cluster bind_addr (save_config order) seed)) : Restorable bind_addr s := by
  have hsome : IsOrder s (s.nodes.toList.map Prod.snd) := List.Perm.refl _
  have hclean : ∀ order, IsOrder s order → ∀ info ∈ order, Clean info := by
    intro order horder info hinfo
    obtain ⟨n, hn⟩ := (mem_order_iff horder).mp hinfo
    exact clean_of_restored hbind (h _ 0 hsome) hn
  have hid := (h _ 0 hsome).id
  refine ⟨fun i => ((h _ 0 hsome).owners i).symm, ?_, fun n info hn hne hlen => ?_,
    fun n info hn => ?_⟩
  · rw [← hid]
    exact node_id_word _ 0
  · -- a table that is read from this node on gives its name to the one that is started
    have hinfo : info ∈ s.nodes.toList.map Prod.snd := (mem_order_iff hsome).mpr ⟨n, hn⟩
    have hfirst : IsOrder s (info :: (s.nodes.toList.map Prod.snd).erase info) :=
      (perm_cons_erase hinfo).symm
    have hname := (h _ 0 hfirst).id
    have hload := load_node_id (hclean _ hfirst) 0
    rw [map_cons, List.find?_cons_of_pos (by simpa [hkeyed.id n info hn] using hlen)] at hload
    exact hne ((hkeyed.id n info hn).symm.trans (hload.symm.trans hname))
  · have hinfo : info ∈ s.nodes.toList.map Prod.snd := (mem_order_iff hsome).mpr ⟨n, hn⟩
    have hget := (h _ 0 hsome).nodes n info hn
    have hown : load_or_generate_node_id (save_config (s.nodes.toList.map Prod.snd)) 0 =
      s.myself.id := hid
    rw [init_nodes, lines_save_config (hclean _ hsome), hown, ← hkeyed.id n info hn,
      load_own (hclean _ hsome) (nodup_order hsome hkeyed) hinfo] at hget
    cases hparse : parse_conf_line info.conf_line with
    | some r =>
      rw [hparse] at hget
      obtain rfl : r = info := Option.some.inj hget
      exact .inl (readable_of_parse (hclean _ hsome r hinfo) hparse)
    | none =>
      rw [hparse] at hget
      have hstart := (starting_nodes _ _ _).symm.trans hget
      split at hstart
      · exact .inr (Option.some.inj hstart).symm
      · cases hstart

/-- **The file.** After any run from a node that has just started, and for an address that is a word:
the node that is started from the file has its name, its nodes and its owners again, in whatever
order the table was written, if and only if the state can be restored. -/
theorem nodes_conf_restored_iff (lossy : Bytes → String) (myself : NodeInfo) (es : List ClusterEvent)
    {bind_addr : String} (hbind : IsWord bind_addr) :
    (∀ order seed, IsOrder (run (fun s e => e.step lossy s) (.new myself) es) order →
      Restored (run (fun s e => e.step lossy s) (.new myself) es)
        (init_cluster bind_addr (save_config order) seed)) ↔
      Restorable bind_addr (run (fun s e => e.step lossy s) (.new myself) es) := by
  have hkeyed := keyed_run lossy myself es
  constructor
  · exact restorable_of_restored hbind hkeyed
  · exact fun h order seed horder => restored_of_restorable hbind hkeyed h horder seed

/-- A name as `generate_node_id` makes them. -/
def forty_digits : String := "0123456789012345678901234567890123456789"

/-- A node that has just started is restored. -/
theorem nodes_conf_restored_alone :
    IsWord "127.0.0.1:6379" ∧ ∀ order seed,
      IsOrder (run (fun s e => ClusterEvent.step lossy_text s e)
        (.new (starting forty_digits "127.0.0.1:6379")) []) order →
      Restored (run (fun s e => ClusterEvent.step lossy_text s e)
        (.new (starting forty_digits "127.0.0.1:6379")) [])
        (init_cluster "127.0.0.1:6379" (save_config order) seed) := by
  have hbind : IsWord "127.0.0.1:6379" := isWord_of_all (by decide +kernel)
  refine ⟨hbind, (nodes_conf_restored_iff lossy_text _ [] hbind).mpr ⟨fun _ => rfl, ?_, ?_, ?_⟩⟩
  · exact ⟨isWord_of_all (by decide +kernel), by decide +kernel⟩
  · intro n info hn hne
    have hn' := (starting_nodes _ _ n).symm.trans hn
    rw [if_neg (show n ≠ forty_digits from hne)] at hn'
    cases hn'
  · intro n info hn
    have hn' := (starting_nodes _ _ n).symm.trans hn
    split at hn'
    · exact .inr (Option.some.inj hn').symm
    · cases hn'

/-- A node that has been heard of and has no slots is forgotten, and so is the owner of a slot. -/
theorem nodes_conf_forgets :
    let s := run (fun s e => ClusterEvent.step lossy_text s e)
      (.new (starting forty_digits "127.0.0.1:6379"))
      [.gossip ⟨"b", "127.0.0.1:6380", [], 1⟩, .ADDSLOTS [as_bytes "0"]]
    let order := s.nodes.toList.map Prod.snd
    let s' := init_cluster "127.0.0.1:6379" (save_config order) 0
    IsOrder s order ∧ (s.nodes["b"]?).isSome ∧ s'.nodes["b"]? = none ∧
      s.slots ⟨0, by decide⟩ = some forty_digits ∧ s'.slots ⟨0, by decide⟩ = none := by
  refine ⟨List.Perm.refl _, ?_, ?_, ?_, rfl⟩
  · decide +kernel
  · decide +kernel
  · decide +kernel

end ValkeyRs.Cluster
