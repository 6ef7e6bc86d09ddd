/-
The rules that ACL LIST prints for a user, `AclManager::user_rules`, given back to ACL SETUSER.

The printed form starts from a user without permissions: it names what is allowed and which patterns
are granted. A new user starts with everything, `+`, `~` and `&` only add to that, and nothing is
printed that takes it away first. So what comes back is right where the user still had everything,
or where the printed rule sets the whole part at once (`Lossless`, `acl_list_round_trip_iff`).

Two more things are lost. A user whose last password has been removed accepts none, and prints
nothing about it, while a new user accepts all. And a name or a password can end in white space,
which is cut off when the rule is read again.

No code reads the channel patterns; they are read as those of keys.
-/
import ValkeyRs.AclRules
import ValkeyRs.Runs

set_option autoImplicit false

open ValkeyRs Text Storage Resp Server Runs List

namespace ValkeyRs.Acl

/-! ## Case -/

variable {c : Char}

theorem toLower_ne_space (hc : c ≠ ' ') : c.toLower ≠ ' ' := by
  intro h
  have halpha := Char.isAlpha_toLower_eq_isAlpha c
  have hupper : ¬ c.isUpper := fun hupper => by simp [h, Char.isAlpha, hupper] at halpha
  exact hc ((Char.toLower_eq_of_not_isUpper hupper).symm.trans h)

theorem toUpper_ne_space (hc : c ≠ ' ') : c.toUpper ≠ ' ' := by
  intro h
  have halpha := Char.isAlpha_toUpper_eq_isAlpha c
  have hlower : ¬ c.isLower := fun hlower => by simp [h, Char.isAlpha, hlower] at halpha
  exact hc ((Char.toUpper_eq_of_not_isLower hlower).symm.trans h)

/-! ## What is stored -/

theorem exists_digit_of_mem_toDigits {b : ℕ} (hb : 1 < b) (n : ℕ)
    (hc : c ∈ Nat.toDigits b n) : ∃ d < b, c = Nat.digitChar d := by
  induction n using Nat.strong_induction_on with
  | _ n ih =>
    by_cases hn : n < b
    · rw [Nat.toDigits_of_lt_base hn, mem_singleton] at hc
      exact ⟨n, hn, hc⟩
    · rw [Nat.toDigits_of_base_le hb (Nat.not_lt.mp hn), mem_append, mem_singleton] at hc
      rcases hc with hc | hc
      · exact ih (n / b) (Nat.div_lt_self (by omega) hb) hc
      · exact ⟨n % b, Nat.mod_lt _ (by omega), hc⟩

variable {hasher : String → UInt64}

theorem mem_sha256_hex {s : String} {c : Char}
    (hc : c ∈ (sha256_hex hasher s).toList) : is_whitespace c = false ∧ c ≠ ' ' ∧ c.toLower = c := by
  obtain ⟨d, hd, rfl⟩ : ∃ d < 16, c = Nat.digitChar d := by
    rw [sha256_hex, String.toList_ofList] at hc
    rcases mem_append.mp hc with hc | hc
    · exact ⟨0, by decide, (mem_replicate.mp hc).2⟩
    · exact exists_digit_of_mem_toDigits (by decide) _ hc
  interval_cases d <;> exact ⟨rfl, by decide, rfl⟩

/-- What reading a rule guarantees about a name or a password in it. -/
def AclRule.Sound : AclRule → Prop
  | .deny name => ∀ c ∈ name.toList, c ≠ ' ' ∧ c.toUpper = c
  | .add_password hash => hash ≠ "" ∧ ∀ c ∈ hash.toList, c ≠ ' ' ∧ c.toLower = c
  | _ => True

variable {r : AclRule}

theorem keyword_rule_sound {verb : String} (h : keyword_rule verb = some r) : r.Sound := by
  unfold keyword_rule at h
  split at h <;> cases h <;> trivial

theorem sigil_rule_sound {verb : List Char} {arg : String}
    (hverb : ∀ c ∈ verb, c ≠ ' ' ∧ c.toLower = c)
    (h : sigil_rule hasher verb arg = some r) : r.Sound := by
  unfold sigil_rule at h
  dsimp only at h
  split at h
  · cases h
    trivial
  · cases h
    intro c hc
    rw [to_ascii_uppercase, String.toList_ofList, String.toList_ofList] at hc
    obtain ⟨d, hd, rfl⟩ := mem_map.mp hc
    exact ⟨toUpper_ne_space (hverb d (mem_cons_of_mem _ hd)).1, Char.toUpper_toUpper_eq_toUpper d⟩
  · rename_i pw
    cases h
    by_cases hpw : pw.isEmpty = true
    · rw [if_pos hpw]
      refine ⟨fun hempty => ?_, fun c hc => (mem_sha256_hex hc).2⟩
      have hlen := sha256_hex_length hasher arg
      rw [hempty] at hlen
      exact absurd hlen (by decide)
    · rw [if_neg hpw]
      refine ⟨fun hempty => hpw ?_, fun c hc => ?_⟩
      · have hnil := congrArg String.toList hempty
        rw [String.toList_ofList] at hnil
        rw [hnil]
        rfl
      · rw [String.toList_ofList] at hc
        exact hverb c (mem_cons_of_mem _ hc)
  · cases h
    trivial
  · cases h
    trivial
  · cases h
    trivial
  · cases h

theorem parse_rule_sound {rule : String} (h : parse_rule hasher rule = .ok r) : r.Sound := by
  have hverb : ∀ c ∈ (to_ascii_lowercase (before_space (trim rule))).toList,
      c ≠ ' ' ∧ c.toLower = c := by
    intro c hc
    rw [to_ascii_lowercase, before_space, String.toList_ofList, String.toList_ofList] at hc
    obtain ⟨d, hd, rfl⟩ := mem_map.mp hc
    exact ⟨toLower_ne_space (by simpa using mem_takeWhile_imp hd), Char.toLower_toLower_eq_toLower d⟩
  unfold parse_rule at h
  by_cases hempty : trim rule = ""
  · rw [if_pos hempty] at h
    cases h
    trivial
  · rw [if_neg hempty] at h
    cases hr : (keyword_rule (to_ascii_lowercase (before_space (trim rule)))).or
        (sigil_rule hasher (to_ascii_lowercase (before_space (trim rule))).toList
          (after_space (trim rule))) with
    | none =>
      rw [hr] at h
      cases h
    | some r' =>
      rw [hr] at h
      cases h
      rcases Option.or_eq_some_iff.mp hr with hkey | ⟨-, hsigil⟩
      · exact keyword_rule_sound hkey
      · exact sigil_rule_sound hverb hsigil

/-- What holds of every user that ACL SETUSER makes. -/
structure Printable (user : AclUser) : Prop where
  nopass : user.nopass = true → user.passwords = []
  passwords : ∀ p ∈ user.passwords, (AclRule.add_password p).Sound
  denied : ∀ x ∈ user.commands.sets.2, (AclRule.deny x).Sound

theorem printable_fresh (name : String) : Printable (.fresh name) where
  nopass _ := rfl
  passwords _ hp := absurd hp not_mem_nil
  denied _ hx := absurd hx Std.ExtTreeSet.not_mem_empty

theorem printable_apply {user : AclUser} (h : Printable user) (hr : r.Sound) :
    Printable (user.apply r) := by
  cases r with
  | reset => exact printable_fresh user.name
  | nopass => exact ⟨fun _ => rfl, fun p hp => absurd hp not_mem_nil, h.denied⟩
  | add_password hash =>
    refine ⟨nofun, fun p hp => ?_, h.denied⟩
    rcases mem_append.mp hp with hp | hp
    · exact h.passwords p hp
    · rw [mem_singleton.mp hp]
      exact hr
  | remove_password hash =>
    refine ⟨fun hno => ?_, fun p hp => h.passwords p (List.mem_filter.mp hp).1, h.denied⟩
    show user.passwords.filter _ = []
    rw [h.nopass hno]
    rfl
  | allcommands | nocommands =>
    exact ⟨h.nopass, h.passwords, fun x hx => absurd hx Std.ExtTreeSet.not_mem_empty⟩
  | allow name =>
    refine ⟨h.nopass, h.passwords, fun x hx => h.denied x ?_⟩
    have hx' : x ∈ (user.commands.allow name).sets.2 := hx
    cases hcmds : user.commands with
    | Set allowed denied =>
      rw [hcmds] at hx'
      exact hx'
    | _ =>
      rw [hcmds] at hx'
      exact hx'
  | deny name =>
    refine ⟨h.nopass, h.passwords, fun x hx => ?_⟩
    have hx' : x ∈ (user.commands.deny name).sets.2 := hx
    have hcases : x = name ∨ x ∈ user.commands.sets.2 := by
      cases hcmds : user.commands with
      | Set allowed denied =>
        rw [hcmds] at hx'
        exact mem_insert_string.mp hx'
      | _ =>
        rw [hcmds] at hx'
        exact .inl ((mem_insert_string.mp hx').resolve_right Std.ExtTreeSet.not_mem_empty)
    rcases hcases with rfl | hx
    · exact hr
    · exact h.denied x hx
  | _ => exact ⟨h.nopass, h.passwords, h.denied⟩

theorem printable_apply_rules {user : AclUser} (h : Printable user)
    {rules : List String} {after : AclUser} (hrules : apply_rules hasher user rules = .ok after) :
    Printable after := by
  induction rules generalizing user with
  | nil =>
    cases hrules
    exact h
  | cons rule rules ih =>
    rw [apply_rules] at hrules
    cases hr : parse_rule hasher rule with
    | error e =>
      rw [hr] at hrules
      cases hrules
    | ok r =>
      rw [hr] at hrules
      exact ih (printable_apply h (parse_rule_sound hr)) hrules

variable {F : Type}

/-- The manager after a history of ACL SETUSER. -/
def after_setusers (hasher : String → UInt64) (history : List (List Bytes)) : AclManager :=
  run (fun acl args => (cmd_acl_setuser (F := F) hasher acl args).2) .new history

variable {hasher : String → UInt64}

theorem printable_setuser {acl : AclManager}
    (h : ∀ name user, acl.get_user name = some user → Printable user) (args : List Bytes) :
    ∀ name user, (cmd_acl_setuser (F := F) hasher acl args).2.get_user name = some user →
      Printable user := by
  intro name user huser
  cases args with
  | nil => exact h name user huser
  | cons first rest =>
    unfold cmd_acl_setuser at huser
    dsimp only at huser
    cases hname : from_utf8 first with
    | error e =>
      rw [hname] at huser
      exact h name user huser
    | ok username =>
      rw [hname] at huser
      dsimp only at huser
      have hbefore : Printable ((acl.get_user username).getD (.fresh username)) := by
        cases hold : acl.get_user username with
        | none => exact printable_fresh username
        | some old => exact h username old hold
      cases hrules : apply_rules hasher ((acl.get_user username).getD (.fresh username))
          (texts rest) with
      | error e =>
        rw [hrules] at huser
        exact h name user huser
      | ok after =>
        rw [hrules] at huser
        rw [get_user_set_user] at huser
        split at huser
        · cases huser
          exact printable_apply_rules hbefore hrules
        · exact h name user huser

variable {user : AclUser} {patterns : List String}

theorem printable_after {history : List (List Bytes)} {name : String}
    (h : (after_setusers (F := F) hasher history).get_user name = some user) :
    Printable user := by
  refine run_invariant (I := fun acl : AclManager => ∀ name user, acl.get_user name = some user →
    Printable user) (fun acl args hacl => printable_setuser hacl args) history ?_ name user h
  intro name user huser
  have hdefault : user = .default := by
    have hget := get_user_set_user ⟨∅, [], fun name user h => by simp at h⟩ .default name
    rw [show AclManager.new.get_user name = _ from hget] at huser
    split at huser
    · exact (Option.some.inj huser).symm
    · exact absurd huser (by simp [AclManager.get_user])
  rw [hdefault]
  exact printable_fresh "default"

/-! ## Reading the printed rules -/

theorem apply_rules_append {after : AclUser} {xs : List String}
    (h : apply_rules hasher user xs = .ok after) (ys : List String) :
    apply_rules hasher user (xs ++ ys) = apply_rules hasher after ys := by
  induction xs generalizing user with
  | nil =>
    cases h
    rfl
  | cons x xs ih =>
    rw [apply_rules] at h
    rw [cons_append, apply_rules]
    cases hx : parse_rule hasher x with
    | error e =>
      rw [hx] at h
      cases h
    | ok r =>
      rw [hx] at h
      exact ih h

theorem apply_rules_map {f : String → String} {g : String → AclRule}
    {xs : List String} (h : ∀ x ∈ xs, parse_rule hasher (f x) = .ok (g x)) (user : AclUser) :
    apply_rules hasher user (xs.map f) = .ok ((xs.map g).foldl AclUser.apply user) := by
  induction xs generalizing user with
  | nil => rfl
  | cons x xs ih =>
    rw [map_cons, apply_rules, h x mem_cons_self]
    exact ih (fun y hy => h y (mem_cons_of_mem _ hy)) _

def reread_name (name : String) : String :=
  to_ascii_uppercase (String.ofList ((word name.toList).map Char.toLower))

def reread_pattern (sigil pattern : String) : String :=
  let read := (word pattern.toList).map Char.toLower
  if read.isEmpty then after_space (trim (sigil ++ pattern)) else String.ofList read

section Texts

variable (hasher : String → UInt64) (text : String)

theorem parse_rule_allow :
    parse_rule hasher ("+" ++ text) = .ok (.allow (reread_name text)) :=
  parse_rule_of_sigil (String.toList_append ..) (by decide) rfl

theorem parse_rule_deny : parse_rule hasher ("-" ++ text) = .ok (.deny (reread_name text)) :=
  parse_rule_of_sigil (String.toList_append ..) (by decide) rfl

theorem parse_rule_key :
    parse_rule hasher ("~" ++ text) = .ok (.key_pattern (reread_pattern "~" text)) :=
  parse_rule_of_sigil (String.toList_append ..) (by decide) rfl

theorem parse_rule_channel :
    parse_rule hasher ("&" ++ text) = .ok (.channel_pattern (reread_pattern "&" text)) :=
  parse_rule_of_sigil (String.toList_append ..) (by decide) rfl

end Texts

def trim_end (s : String) : String := String.ofList (s.toList.rdropWhile is_whitespace)

theorem reread_name_eq {name : String} (h : (AclRule.deny name).Sound) :
    reread_name name = trim_end name := by
  have hmem : ∀ c ∈ name.toList.rdropWhile is_whitespace, c ∈ name.toList :=
    fun c hc => ( rdropWhile_prefix _ _).subset hc
  have hword : word name.toList = name.toList.rdropWhile is_whitespace :=
    takeWhile_eq_self_iff.mpr fun c hc => by simpa using (h c (hmem c hc)).1
  have hcase : ((name.toList.rdropWhile is_whitespace).map Char.toLower).map Char.toUpper
      = name.toList.rdropWhile is_whitespace := by
    rw [map_map]
    conv_rhs => rw [← map_id (name.toList.rdropWhile is_whitespace)]
    exact map_congr_left fun c hc =>
      (Char.toUpper_toLower_eq_toUpper c).trans (h c (hmem c hc)).2
  rw [reread_name, hword, to_ascii_uppercase, String.toList_ofList, hcase, trim_end]

theorem foldl_add_password (hashes : List String) (user : AclUser) :
    (hashes.map AclRule.add_password).foldl AclUser.apply user =
      { user with
        passwords := user.passwords ++ hashes
        nopass := user.nopass && hashes.isEmpty } := by
  induction hashes generalizing user with
  | nil => simp
  | cons hash hashes ih =>
    rw [map_cons, foldl_cons, ih]
    simp [AclUser.apply]

theorem foldl_key_pattern (patterns : List String) (user : AclUser) :
    (patterns.map AclRule.key_pattern).foldl AclUser.apply user =
      { user with
        keys := user.keys ++ patterns
        reset_keys := user.reset_keys && patterns.isEmpty } := by
  induction patterns generalizing user with
  | nil => simp
  | cons pattern patterns ih =>
    rw [map_cons, foldl_cons, ih]
    simp [AclUser.apply]

theorem foldl_channel_pattern (patterns : List String) (user : AclUser) :
    (patterns.map AclRule.channel_pattern).foldl AclUser.apply user =
      { user with channels := user.channels ++ patterns } := by
  induction patterns generalizing user with
  | nil => simp
  | cons pattern patterns ih =>
    rw [map_cons, foldl_cons, ih]
    simp [AclUser.apply]

theorem foldl_marks {rs : List AclRule} (h : ∀ r ∈ rs, r.marks = true) (user : AclUser) :
    rs.foldl AclUser.apply user =
      { user with commands := rs.foldl CommandPermissions.step user.commands } := by
  induction rs generalizing user with
  | nil => rfl
  | cons r rs ih =>
    have happly : user.apply r = { user with commands := user.commands.step r } := by
      have hr := h r mem_cons_self
      cases r with
      | allow name | deny name => rfl
      | _ => cases hr
    rw [foldl_cons, foldl_cons, ih fun r' hr' => h r' (mem_cons_of_mem _ hr'), happly]

/-- The patterns that come back: none, or some with the one that stands for all. -/
def Reread (patterns read : List String) : Prop :=
  if patterns = [] then read = [] else "*" ∈ read

theorem reread_of_mem {read : List String} (h : patterns ≠ []) (hall : "*" ∈ read) :
    Reread patterns read := by
  rw [Reread, if_neg h]
  exact hall

/-- The commands that come back: the same mode, or two sets of which the first still has all. -/
def RereadCommands (printed : CommandPermissions) (read : CommandPermissions) : Prop :=
  match printed with
  | .Set _ denied => ∃ a d, read = .Set a d ∧ "@all" ∈ a ∧
      ∀ x, x ∈ d ↔ ∃ y ∈ denied, reread_name y = x
  | whole => read = whole

/-- The user that comes back. -/
structure Restored (hasher : String → UInt64) (user after : AclUser) : Prop where
  enabled : after.enabled = user.enabled
  passwords : after.passwords = user.passwords.map (stored_password hasher)
  nopass : after.nopass = user.passwords.isEmpty
  commands : RereadCommands user.commands after.commands
  keys : Reread user.keys after.keys
  channels : Reread user.channels after.channels

/-- The texts about passwords, about commands, and about keys or channels. -/
def password_texts (user : AclUser) : List String :=
  (if user.nopass then ["nopass"] else []) ++ user.passwords.map (">" ++ ·)

@[inherit_doc password_texts]
def command_texts : CommandPermissions → List String
  | .AllowAll => ["allcommands"]
  | .DenyAll => ["nocommands"]
  | .Set allowed denied => allowed.toList.map ("+" ++ ·) ++ denied.toList.map ("-" ++ ·)

@[inherit_doc password_texts]
def pattern_texts (reset all sigil : String) (patterns : List String) : List String :=
  if patterns.isEmpty then [reset]
  else if patterns = ["*"] then [all]
  else patterns.map (sigil ++ ·)

theorem user_rules_tail (user : AclUser) :
    (AclManager.user_rules user).tail = [if user.enabled then "on" else "off"] ++
      (password_texts user ++ (command_texts user.commands ++
        (pattern_texts "resetkeys" "allkeys" "~" user.keys ++
          pattern_texts "resetchannels" "allchannels" "&" user.channels))) := by
  simp only [AclManager.user_rules, password_texts, append_assoc, cons_append,
    nil_append, tail_cons]
  cases user.commands <;> rfl

section Groups

variable (hasher : String → UInt64) (user u : AclUser)

theorem apply_password_rules (h : Printable user) (hno : u.nopass = true) (hpw : u.passwords = []) :
    apply_rules hasher u (password_texts user) =
      .ok { u with
        passwords := user.passwords.map (stored_password hasher)
        nopass := user.passwords.isEmpty } := by
  have hfirst : apply_rules hasher u (if user.nopass then ["nopass"] else []) = .ok u := by
    by_cases hn : user.nopass = true
    · rw [if_pos hn]
      show Except.ok { u with nopass := true, passwords := [] } = _
      rw [← hno, ← hpw]
    · rw [if_neg hn]
      rfl
  have hparse : ∀ p ∈ user.passwords,
      parse_rule hasher (">" ++ p) = .ok (.add_password (stored_password hasher p)) :=
    fun p hp => parse_rule_password hasher fun hspace => ((h.passwords p hp).2 ' ' hspace).1 rfl
  have hmap : user.passwords.map (fun p => AclRule.add_password (stored_password hasher p))
      = (user.passwords.map (stored_password hasher)).map .add_password := (map_map ..).symm
  rw [password_texts, apply_rules_append hfirst, apply_rules_map hparse, hmap, foldl_add_password, hpw, hno]
  simp

theorem apply_command_rules (hu : u.commands = .Set {"@all"} ∅) :
    ∃ read, apply_rules hasher u (command_texts user.commands) =
      .ok { u with commands := read } ∧ RereadCommands user.commands read := by
  cases user.commands with
  | AllowAll => exact ⟨.AllowAll, rfl, rfl⟩
  | DenyAll => exact ⟨.DenyAll, rfl, rfl⟩
  | Set allowed denied =>
    let rs : List AclRule := allowed.toList.map (fun x => .allow (reread_name x)) ++
      denied.toList.map fun x => .deny (reread_name x)
    have hmarks : ∀ r ∈ rs, r.marks = true ∧ r.whole = false := by
      intro r hr
      rcases mem_append.mp hr with hr | hr
      · obtain ⟨x, -, rfl⟩ := mem_map.mp hr
        exact ⟨rfl, rfl⟩
      · obtain ⟨x, -, rfl⟩ := mem_map.mp hr
        exact ⟨rfl, rfl⟩
    have happly : apply_rules hasher u
        (allowed.toList.map ("+" ++ ·) ++ denied.toList.map ("-" ++ ·))
          = .ok (rs.foldl AclUser.apply u) := by
      rw [apply_rules_append (apply_rules_map (fun x _ => parse_rule_allow hasher x) u),
        apply_rules_map (fun x _ => parse_rule_deny hasher x), ← foldl_append]
    obtain ⟨a, d, hset, ha, hd⟩ := foldl_step_set {"@all"} ∅ fun r hr => (hmarks r hr).2
    rw [foldl_marks fun r hr => (hmarks r hr).1, hu, hset] at happly
    refine ⟨.Set a d, happly, a, d, rfl, (ha _).mpr (.inl ?_), fun x => (hd x).trans ?_⟩
    · exact mem_insert_string.mpr (.inl rfl)
    · rw [or_iff_right Std.ExtTreeSet.not_mem_empty]
      simp [rs]

theorem apply_key_rules (hu : u.keys = ["*"]) :
    ∃ read reset, apply_rules hasher u (pattern_texts "resetkeys" "allkeys" "~" user.keys) =
      .ok { u with keys := read, reset_keys := reset } ∧ Reread user.keys read := by
  unfold pattern_texts
  by_cases hempty : user.keys = []
  · rw [hempty]
    exact ⟨[], true, rfl, rfl⟩
  · rw [if_neg (by simpa using hempty)]
    by_cases hall : user.keys = ["*"]
    · rw [if_pos hall]
      exact ⟨["*"], false, rfl, reread_of_mem hempty (mem_singleton_self _)⟩
    · have hmap : user.keys.map (fun p => AclRule.key_pattern (reread_pattern "~" p))
          = (user.keys.map (reread_pattern "~")).map .key_pattern := (map_map ..).symm
      rw [if_neg hall, apply_rules_map (fun x _ => parse_rule_key hasher x), hmap,
        foldl_key_pattern, hu]
      exact ⟨_, _, rfl, reread_of_mem hempty (mem_append_left _ (mem_singleton_self _))⟩

theorem apply_channel_rules (hu : u.channels = ["*"]) :
    ∃ read, apply_rules hasher u (pattern_texts "resetchannels" "allchannels" "&" user.channels) =
      .ok { u with channels := read } ∧ Reread user.channels read := by
  unfold pattern_texts
  by_cases hempty : user.channels = []
  · rw [hempty]
    exact ⟨[], rfl, rfl⟩
  · rw [if_neg (by simpa using hempty)]
    by_cases hall : user.channels = ["*"]
    · rw [if_pos hall]
      exact ⟨["*"], rfl, reread_of_mem hempty (mem_singleton_self _)⟩
    · have hmap : user.channels.map (fun p => AclRule.channel_pattern (reread_pattern "&" p))
          = (user.channels.map (reread_pattern "&")).map .channel_pattern := (map_map ..).symm
      rw [if_neg hall, apply_rules_map (fun x _ => parse_rule_channel hasher x), hmap,
        foldl_channel_pattern, hu]
      exact ⟨_, rfl, reread_of_mem hempty (mem_append_left _ (mem_singleton_self _))⟩

end Groups

theorem apply_user_rules (hasher : String → UInt64) (h : Printable user) (name : String) :
    ∃ after, apply_rules hasher (.fresh name) (AclManager.user_rules user).tail = .ok after ∧
      Restored hasher user after := by
  let u₁ : AclUser := { AclUser.fresh name with enabled := user.enabled }
  let u₂ : AclUser := { u₁ with
    passwords := user.passwords.map (stored_password hasher)
    nopass := user.passwords.isEmpty }
  have hflag : apply_rules hasher (.fresh name) [if user.enabled then "on" else "off"] = .ok u₁ := by
    show _ = Except.ok { AclUser.fresh name with enabled := user.enabled }
    cases user.enabled <;> rfl
  have hpasswords := apply_password_rules hasher user u₁ h rfl rfl
  obtain ⟨commands, hcommands, hreadcommands⟩ := apply_command_rules hasher user u₂ rfl
  let u₃ : AclUser := { u₂ with commands := commands }
  obtain ⟨keys, reset, hkeys, hreadkeys⟩ := apply_key_rules hasher user u₃ rfl
  let u₄ : AclUser := { u₃ with keys := keys, reset_keys := reset }
  obtain ⟨channels, hchannels, hreadchannels⟩ := apply_channel_rules hasher user u₄ rfl
  refine ⟨{ u₄ with channels := channels }, ?_, rfl, rfl, rfl, hreadcommands, hreadkeys,
    hreadchannels⟩
  rw [user_rules_tail, apply_rules_append hflag, apply_rules_append hpasswords, apply_rules_append hcommands,
    apply_rules_append hkeys, hchannels]

/-! ## The same access -/

/-- Whether the password is accepted; an account can be disabled besides. -/
def AclUser.accepts (hasher : String → UInt64) (user : AclUser) (password : String) : Bool :=
  user.nopass || user.passwords.contains (sha256_hex hasher password)

/-- The two users cannot be told apart by what they may do. -/
structure SameAccess (hasher : String → UInt64) (u v : AclUser) : Prop where
  enabled : u.enabled = v.enabled
  accepts : ∀ password, u.accepts hasher password = v.accepts hasher password
  may_run : ∀ cmd, u.may_run cmd = v.may_run cmd
  keys : ∀ keys, check_keys u.keys keys = check_keys v.keys keys
  channels : ∀ channels, check_keys u.channels channels = check_keys v.channels channels

theorem SameAccess.check_command_inner {u v : AclUser}
    (h : SameAccess hasher u v) (cmd : String) (keys : List Bytes) :
    Acl.check_command_inner u cmd keys = .ok () ↔ Acl.check_command_inner v cmd keys = .ok () := by
  have hrun : u.commands.permits (to_ascii_uppercase cmd) = v.commands.permits _ := h.may_run cmd
  rw [check_command_inner_eq_ok, check_command_inner_eq_ok, h.enabled, h.keys keys, hrun]

/-! ### Keys and channels -/

/-- A text of more stars than the pattern has characters is not matched: a star in the pattern is
compared with the one in the text before it is read as a wildcard. -/
theorem glob_loop_stars (pat : List Char) {n : ℕ} (h : pat.length < n) :
    glob_loop pat (List.replicate n '*') none = false := by
  induction pat generalizing n with
  | nil =>
    obtain ⟨m, rfl⟩ : ∃ m, n = m + 1 := ⟨n - 1, by simp at h; omega⟩
    rw [replicate_succ, glob_loop]
  | cons p ps ih =>
    obtain ⟨m, rfl⟩ : ∃ m, n = m + 1 := ⟨n - 1, by simp at h; omega⟩
    rw [replicate_succ, glob_loop]
    by_cases hp : p = '*' ∨ p = '?'
    · rw [if_pos hp]
      exact ih (by simpa using h)
    · rw [if_neg hp, if_neg fun heq => hp (.inl heq)]

theorem exists_length_lt (texts : List String) : ∃ n, ∀ t ∈ texts, t.toList.length < n :=
  ⟨_, fun _ ht => Nat.lt_succ_of_le (le_sum_of_mem (mem_map_of_mem (f := (·.toList.length)) ht))⟩

/-- No list of patterns covers all keys, other than with the pattern that is looked for by name. -/
theorem exists_unmatched (patterns : List String) :
    ∃ key, patterns.any (glob_match · key) = false := by
  obtain ⟨n, hn⟩ := exists_length_lt patterns
  refine ⟨String.ofList (List.replicate n '*'), any_eq_false.mpr fun p hp => ?_⟩
  rw [glob_match, String.toList_ofList, glob_loop_stars p.toList (hn p hp)]
  exact Bool.false_ne_true

theorem check_keys_of_star (h : "*" ∈ patterns) (keys : List Bytes) :
    check_keys patterns keys = .ok () := by
  have hne : patterns.isEmpty = false := by
    cases patterns with
    | nil => cases h
    | cons p ps => rfl
  rw [check_keys, hne, if_neg Bool.false_ne_true, if_pos (contains_iff_mem.mpr h)]

theorem check_keys_reread {read : List String} (h : Reread patterns read) :
    (∀ keys, check_keys patterns keys = check_keys read keys) ↔ patterns = [] ∨ "*" ∈ patterns := by
  unfold Reread at h
  by_cases hempty : patterns = []
  · rw [if_pos hempty] at h
    rw [h, hempty]
    simp
  · rw [if_neg hempty] at h
    rw [or_iff_right hempty]
    constructor
    · intro hsame
      by_contra hstar
      obtain ⟨key, hkey⟩ := exists_unmatched patterns
      have hkeys := hsame [as_bytes key]
      rw [check_keys_of_star h, check_keys, if_neg (by simpa using hempty),
        if_neg (by simpa using hstar), check_each_key, from_utf8_as_bytes] at hkeys
      dsimp only at hkeys
      rw [hkey] at hkeys
      cases hkeys
    · intro hstar keys
      rw [check_keys_of_star hstar, check_keys_of_star h]

/-! ### Passwords -/

theorem stored_password_sha256_hex (hasher : String → UInt64) (q : String) :
    stored_password hasher (sha256_hex hasher q) = sha256_hex hasher q := by
  set hash := sha256_hex hasher q with hhash
  have hstrip : hash.toList.rdropWhile is_whitespace = hash.toList := by
    refine rdropWhile_eq_self_iff.mpr fun hne hlast => ?_
    rw [(mem_sha256_hex (getLast_mem hne)).1] at hlast
    cases hlast
  have hlen := sha256_hex_length hasher q
  have hcase : hash.toList.map Char.toLower = hash.toList := by
    conv_rhs => rw [← map_id hash.toList]
    exact map_congr_left fun c hc => (mem_sha256_hex hc).2.2
  unfold stored_password
  rw [hstrip, if_neg, to_ascii_lowercase, String.toList_ofList, hcase, String.ofList_toList]
  intro hnil
  rw [List.isEmpty_iff.mp hnil] at hlen
  exact absurd hlen (by decide)

/-- The user has no password on purpose, or has some, and none of them becomes a hash when it is
read again that it was not before. -/
def PasswordsKept (hasher : String → UInt64) (user : AclUser) : Prop :=
  user.nopass = true ∨ (user.passwords ≠ [] ∧ ∀ p ∈ user.passwords,
    stored_password hasher p ∈ user.passwords ∨
      ∀ q, sha256_hex hasher q ≠ stored_password hasher p)

theorem accepts_restored {after : AclUser} (hp : Printable user) (h : Restored hasher user after) :
    (∀ q, user.accepts hasher q = after.accepts hasher q) ↔ PasswordsKept hasher user := by
  unfold AclUser.accepts PasswordsKept
  rw [h.passwords, h.nopass]
  by_cases hno : user.nopass = true
  · rw [hno, hp.nopass hno]
    simp
  · rw [Bool.not_eq_true] at hno
    rw [hno, or_iff_right Bool.false_ne_true]
    by_cases hempty : user.passwords = []
    · rw [hempty]
      simp
    · rw [and_iff_right hempty, show user.passwords.isEmpty = false by simpa using hempty]
      have hmem : ∀ q, ((false || user.passwords.contains (sha256_hex hasher q)) =
          (false || (user.passwords.map (stored_password hasher)).contains (sha256_hex hasher q))) ↔
            (sha256_hex hasher q ∈ user.passwords ↔
              ∃ p ∈ user.passwords, stored_password hasher p = sha256_hex hasher q) := by
        intro q
        rw [Bool.false_or, Bool.false_or, Bool.eq_iff_iff, contains_iff_mem,
          contains_iff_mem, mem_map]
      rw [forall_congr' hmem]
      constructor
      · intro hsame p hpw
        by_contra hlost
        rw [not_or, not_forall] at hlost
        obtain ⟨hout, q, hq⟩ := hlost
        rw [not_not] at hq
        exact hout (hq ▸ (hsame q).mpr ⟨p, hpw, hq.symm⟩)
      · intro hkept q
        constructor
        · intro hq
          exact ⟨_, hq, stored_password_sha256_hex hasher q⟩
        · rintro ⟨p, hpw, hq⟩
          rcases hkept p hpw with hin | hnever
          · rwa [← hq]
          · exact absurd hq.symm (hnever q)

/-! ### Commands -/

theorem mem_categories_of_has {cat cmd : String} (h : category_has cat cmd = true) :
    cmd ∈ categories.flatMap Prod.snd := by
  have hlookup : ∀ (l : List (String × List String)) (name : String) (cmds : List String),
      l.lookup name = some cmds → cmd ∈ cmds → cmd ∈ l.flatMap Prod.snd := by
    intro l name cmds
    induction l with
    | nil => exact fun hnone => by cases hnone
    | cons entry l ih =>
      intro hsome hcmd
      rw [flatMap_cons, mem_append]
      rw [lookup_cons] at hsome
      split at hsome
      · cases hsome
        exact .inl hcmd
      · exact .inr (ih hsome hcmd)
  unfold category_has at h
  split at h
  · split at h
    · rename_i cmds hcmds
      exact hlookup _ _ _ hcmds (contains_iff_mem.mp h)
    · cases h
  · cases h

theorem exists_unmentioned {allowed : HashSet String} (denied : HashSet String)
    (hall : "@all" ∉ allowed) :
    ∃ cmd, to_ascii_uppercase cmd = cmd ∧ CommandPermissions.allows allowed cmd = false ∧
      ∀ x ∈ denied, trim_end x ≠ cmd ∧ trim_end x ≠ "@" ++ cmd := by
  obtain ⟨n, hn⟩ := exists_length_lt
    (allowed.toList ++ denied.toList ++ categories.flatMap Prod.snd)
  set cmd := String.ofList (List.replicate n 'A') with hcmd
  have hlen : cmd.toList.length = n := by rw [hcmd, String.toList_ofList, length_replicate]
  have hout : ∀ t ∈ allowed.toList ++ denied.toList ++ categories.flatMap Prod.snd, t ≠ cmd := by
    rintro t ht rfl
    exact absurd (hn _ ht) (by omega)
  refine ⟨cmd, ?_, ?_, fun x hx => ?_⟩
  · rw [to_ascii_uppercase, hcmd, String.toList_ofList, map_replicate]
    rfl
  · rw [← Bool.not_eq_true, allows_iff]
    rintro (⟨name, hname, rfl | hcat⟩ | hmem)
    · exact hout cmd (mem_append_left _ (mem_append_left _
        (Std.ExtTreeSet.mem_toList.mpr hname))) rfl
    · exact hout cmd (mem_append_right _ (mem_categories_of_has hcat)) rfl
    · exact hall hmem
  · have hxlen : (trim_end x).toList.length < n := by
      have hle : (trim_end x).toList.length ≤ x.toList.length := by
        rw [trim_end, String.toList_ofList]
        exact ( rdropWhile_prefix _ _).length_le
      have hlt := hn x (mem_append_left _ (mem_append_right _
        (Std.ExtTreeSet.mem_toList.mpr hx)))
      omega
    constructor
    · intro heq
      rw [heq] at hxlen
      omega
    · intro heq
      rw [heq, String.toList_append, length_append] at hxlen
      omega

/-- All commands are set at once, or the user still has the name that stands for all, and no denied
name ends in white space. -/
def CommandsKept : CommandPermissions → Prop
  | .Set allowed denied => "@all" ∈ allowed ∧ ∀ x ∈ denied, trim_end x = x
  | _ => True

/-- A text that is left when white space is cut off has none at its end, also behind an `@`. -/
theorem trim_end_of_eq {x y : String} (h : trim_end y = x ∨ trim_end y = "@" ++ x) :
    trim_end x = x := by
  have hidem : ∀ {z : String}, trim_end y = z → z.toList.rdropWhile is_whitespace = z.toList := by
    rintro z rfl
    rw [trim_end, String.toList_ofList]
    exact rdropWhile_idempotent _ _
  rcases h with h | h
  · rw [trim_end, hidem h, String.ofList_toList]
  · have hat : ("@" ++ x).toList = '@' :: x.toList := String.toList_append ..
    have hcons := hidem h
    rw [hat, rdropWhile_cons_of_neg _ (by decide)] at hcons
    rw [trim_end, (List.cons.inj hcons).2, String.ofList_toList]

theorem may_run_restored {printed read : CommandPermissions}
    (hsound : ∀ x ∈ printed.sets.2, (AclRule.deny x).Sound) (h : RereadCommands printed read) :
    (∀ cmd, printed.permits (to_ascii_uppercase cmd) = read.permits (to_ascii_uppercase cmd)) ↔
      CommandsKept printed := by
  cases printed with
  | AllowAll =>
    rw [show read = .AllowAll from h]
    exact ⟨fun _ => trivial, fun _ _ => rfl⟩
  | DenyAll =>
    rw [show read = .DenyAll from h]
    exact ⟨fun _ => trivial, fun _ _ => rfl⟩
  | Set allowed denied =>
    obtain ⟨a, d, rfl, ha, hd⟩ := h
    have hd' : ∀ x, x ∈ d ↔ ∃ y ∈ denied, trim_end y = x := by
      intro x
      rw [hd]
      exact exists_congr fun y => and_congr_right fun hy => by rw [reread_name_eq (hsound y hy)]
    have hread : ∀ cmd, (CommandPermissions.Set a d).permits cmd = true ↔
        ¬ CommandPermissions.denies d cmd = true := by
      intro cmd
      rw [CommandPermissions.permits, allows_iff.mpr (.inr ha), Bool.and_true]
      simp
    constructor
    · intro hsame
      refine ⟨?_, fun x hx => ?_⟩
      · by_contra hall
        obtain ⟨cmd, hup, hallows, hdenied⟩ := exists_unmentioned denied hall
        have hcmd := hsame cmd
        rw [hup, CommandPermissions.permits, hallows, Bool.and_false] at hcmd
        have hpermits : (CommandPermissions.Set a d).permits cmd = true := by
          rw [hread, denies_iff, hd', hd']
          rintro (⟨y, hy, heq⟩ | ⟨y, hy, heq⟩)
          · exact (hdenied y hy).1 heq
          · exact (hdenied y hy).2 heq
        rw [hpermits] at hcmd
        cases hcmd
      · -- the name itself, taken for a command, is denied before and has to be denied after
        have hup : to_ascii_uppercase x = x := by
          conv_rhs => rw [← String.ofList_toList (s := x), ← map_id x.toList]
          exact congrArg String.ofList (map_congr_left fun c hc => (hsound x hx c hc).2)
        have hcmd := hsame x
        rw [hup, CommandPermissions.permits, denies_iff.mpr (.inl hx), Bool.not_true,
          Bool.false_and] at hcmd
        have hdenies : CommandPermissions.denies d x = true := by
          by_contra hno
          rw [(hread x).mpr hno] at hcmd
          cases hcmd
        rw [denies_iff, hd', hd'] at hdenies
        rcases hdenies with ⟨y, -, heq⟩ | ⟨y, -, heq⟩
        · exact trim_end_of_eq (.inl heq)
        · exact trim_end_of_eq (.inr heq)
    · rintro ⟨hall, hstrip⟩ cmd
      have hset : ∀ x, x ∈ d ↔ x ∈ denied := by
        intro x
        rw [hd']
        constructor
        · rintro ⟨y, hy, rfl⟩
          rwa [hstrip y hy]
        · exact fun hx => ⟨x, hx, hstrip x hx⟩
      rw [Bool.eq_iff_iff, hread, CommandPermissions.permits, allows_iff.mpr (.inr hall),
        Bool.and_true, denies_iff, hset, hset, ← denies_iff]
      simp

/-! ## The round trip -/

/-- What a user loses nothing by being printed with. -/
structure Lossless (hasher : String → UInt64) (user : AclUser) : Prop where
  passwords : PasswordsKept hasher user
  commands : CommandsKept user.commands
  keys : user.keys = [] ∨ "*" ∈ user.keys
  channels : user.channels = [] ∨ "*" ∈ user.channels

theorem same_access_iff {after : AclUser} (hp : Printable user) (h : Restored hasher user after) :
    SameAccess hasher user after ↔ Lossless hasher user := by
  constructor
  · intro hsame
    exact ⟨(accepts_restored hp h).mp hsame.accepts,
      (may_run_restored hp.denied h.commands).mp hsame.may_run,
      (check_keys_reread h.keys).mp hsame.keys, (check_keys_reread h.channels).mp hsame.channels⟩
  · intro hkept
    exact ⟨h.enabled.symm, (accepts_restored hp h).mpr hkept.passwords,
      (may_run_restored hp.denied h.commands).mpr hkept.commands,
      (check_keys_reread h.keys).mpr hkept.keys,
      (check_keys_reread h.channels).mpr hkept.channels⟩

/-- For every user that a history of ACL SETUSER makes: the rules printed for it are all accepted,
and give a new user the same access exactly when `Lossless`. -/
theorem acl_list_round_trip_iff (hasher : String → UInt64) (history : List (List Bytes))
    (name : String) (user : AclUser)
    (huser : (after_setusers (F := F) hasher history).get_user name = some user) :
    ∃ after, apply_rules hasher (.fresh name) (AclManager.user_rules user).tail = .ok after ∧
      (SameAccess hasher user after ↔ Lossless hasher user) := by
  have hp := printable_after huser
  obtain ⟨after, happly, hrestored⟩ := apply_user_rules hasher hp name
  exact ⟨after, happly, same_access_iff hp hrestored⟩

/-- The default user, before anything has been set. -/
theorem acl_list_round_trip_default :
    ∃ after, apply_rules (fun _ => 0) (.fresh "default") (AclManager.user_rules .default).tail
        = .ok after ∧
      (SameAccess (fun _ => 0) .default after ↔ Lossless (fun _ => 0) .default) :=
  acl_list_round_trip_iff (F := Infinity) (fun _ => 0) [] "default" .default rfl

/-- `ACL SETUSER alice nocommands +get`: what is printed gives back a user who may run SET too, and
with its first text it is refused. -/
theorem acl_list_grants_set :
    let user := (after_setusers (F := Infinity) (fun _ => 0)
      [[as_bytes "alice", as_bytes "nocommands", as_bytes "+get"]]).get_user "alice"
    user.map (·.may_run "SET") = some false ∧
      (user.map fun user => (apply_rules (fun _ => 0) (.fresh "alice")
        (AclManager.user_rules user).tail).toOption.map (·.may_run "SET")) = some (some true) ∧
      (user.map fun user => (apply_rules (fun _ => 0) (.fresh "alice")
        (AclManager.user_rules user)).toOption.isSome) = some false := by
  decide +kernel

end ValkeyRs.Acl
