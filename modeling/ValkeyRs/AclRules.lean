/-
What a list of ACL rules comes to.

`apply_rules` is documented as left to right, and read that way the last rule that mentions
a command decides about it (`last_match`). The code keeps two sets instead and looks at the
denied one first, so the order among the rules is lost: what remains of it is the last rule
that sets all commands at once, after which only the two sets count. This file computes what
the sets contain after any list of rules (`permits_foldl`) and says exactly on which lists
the two readings agree (`LastMatchHolds`, `setuser_last_match_iff`).

The passwords come last. A `>` rule goes through the same lower-casing as a command name and
is stored without being hashed, while AUTH compares hashes; `setuser_auth_iff` says for which
passwords the two meet.
-/
import ValkeyRs.Acl

set_option autoImplicit false

open ValkeyRs Text Storage Resp Server List

namespace ValkeyRs.Acl

/-! ## From texts to rules -/

/-- The rules of a list of texts, when each of them is one. -/
def parse_rules (hasher : String → UInt64) : List String → Except String (List AclRule)
  | [] => .ok []
  | rule :: rules =>
    match parse_rule hasher rule with
    | .ok r => (parse_rules hasher rules).map (r :: ·)
    | .error e => .error e

theorem apply_rules_eq (hasher : String → UInt64) (user : AclUser) (rules : List String) :
    apply_rules hasher user rules =
      (parse_rules hasher rules).map fun rs => rs.foldl AclUser.apply user := by
  induction rules generalizing user with
  | nil => rfl
  | cons rule rules ih =>
    rw [apply_rules, parse_rules]
    cases parse_rule hasher rule with
    | error e => rfl
    | ok r =>
      dsimp only
      rw [ih]
      cases parse_rules hasher rules <;> rfl

/-- Upper case has no `a` in it. -/
theorem toUpper_ne_a (c : Char) : c.toUpper ≠ 'a' := by
  intro h
  have hlower := Char.isLower_toUpper_eq_false c
  rw [h] at hlower
  exact absurd hlower (by decide)

theorem to_ascii_uppercase_ne_all (s : String) : to_ascii_uppercase s ≠ "@all" := by
  intro h
  have hl : s.toList.map Char.toUpper = ['@', 'a', 'l', 'l'] := by
    simpa [to_ascii_uppercase] using congrArg String.toList h
  have hmem : 'a' ∈ s.toList.map Char.toUpper := by
    rw [hl]
    decide
  obtain ⟨c, -, hc⟩ := mem_map.mp hmem
  exact toUpper_ne_a c hc

theorem keyword_rule_ne_allow {verb name : String} : keyword_rule verb ≠ some (.allow name) := by
  unfold keyword_rule
  split <;> simp

variable {hasher : String → UInt64}

theorem sigil_rule_ne_all {verb : List Char} {arg : String} :
    sigil_rule hasher verb arg ≠ some (.allow "@all") := by
  unfold sigil_rule
  split <;> simp [to_ascii_uppercase_ne_all]

/-- The names in a rule are in upper case, so none of them is the `@all` that the default user
starts with. -/
theorem parse_rule_ne_all {rule : String} {r : AclRule}
    (h : parse_rule hasher rule = .ok r) : r ≠ .allow "@all" := by
  rintro rfl
  unfold parse_rule at h
  dsimp only at h
  split at h
  · simp at h
  · split at h
    · rename_i r' hr
      injection h with h
      rw [h, Option.or_eq_some_iff] at hr
      rcases hr with hr | ⟨-, hr⟩
      · exact keyword_rule_ne_allow hr
      · exact sigil_rule_ne_all hr
    · simp at h

theorem parse_rules_ne_all {rules : List String} {rs : List AclRule}
    (h : parse_rules hasher rules = .ok rs) : .allow "@all" ∉ rs := by
  induction rules generalizing rs with
  | nil =>
    injection h with h
    simp [← h]
  | cons rule rules ih =>
    rw [parse_rules] at h
    split at h
    · rename_i r hr
      cases hrs : parse_rules hasher rules with
      | error e => simp [hrs, Except.map] at h
      | ok rs' =>
        rw [hrs] at h
        injection h with h
        rw [← h, mem_cons, not_or]
        exact ⟨(parse_rule_ne_all hr).symm, ih hrs⟩
    · simp at h

/-! ## The last match

What a rule says about a command on its own, and what a list says when its last word counts. -/

/-- Whether a rule mentions the command and, if so, whether it allows it. -/
def AclRule.verdict (cmd : String) : AclRule → Option Bool
  | .allcommands => some true
  | .nocommands => some false
  | .allow name => if name = cmd ∨ category_has name cmd = true then some true else none
  | .deny name => if name = cmd ∨ category_has name cmd = true then some false else none
  | _ => none

/-- The verdict of the last rule that mentions the command, or `before` if none does. -/
def last_match (cmd : String) (before : Bool) (rs : List AclRule) : Bool :=
  (rs.filterMap (AclRule.verdict cmd)).getLast?.getD before

theorem last_match_append (cmd : String) (before : Bool) (rs rs' : List AclRule) :
    last_match cmd before (rs ++ rs') = last_match cmd (last_match cmd before rs) rs' := by
  unfold last_match
  rw [filterMap_append, List.getLast?_append]
  cases (rs'.filterMap (AclRule.verdict cmd)).getLast? <;> rfl

/-! ## What the sets contain -/

namespace CommandPermissions

/-- What a rule does to the permissions. -/
def step (p : CommandPermissions) : AclRule → CommandPermissions
  | .reset => AclUser.default.commands
  | .allcommands => .AllowAll
  | .nocommands => .DenyAll
  | .allow name => p.allow name
  | .deny name => p.deny name
  | _ => p

/-- The allowed and the denied names a `+` or `-` rule adds to. -/
def sets : CommandPermissions → HashSet String × HashSet String
  | .Set allowed denied => (allowed, denied)
  | _ => (∅, ∅)

def is_set : CommandPermissions → Bool
  | .Set _ _ => true
  | _ => false

end CommandPermissions

open CommandPermissions

theorem apply_commands (user : AclUser) (r : AclRule) :
    (user.apply r).commands = user.commands.step r := by
  cases r <;> rfl

theorem foldl_apply_commands (user : AclUser) (rs : List AclRule) :
    (rs.foldl AclUser.apply user).commands = rs.foldl step user.commands := by
  induction rs generalizing user with
  | nil => rfl
  | cons r rs ih => rw [foldl_cons, foldl_cons, ih, apply_commands]

def AclRule.whole : AclRule → Bool
  | .reset | .allcommands | .nocommands => true
  | _ => false

def AclRule.marks : AclRule → Bool
  | .allow _ | .deny _ => true
  | _ => false

/-- Among the rules `rs` or in the denied set, the command stands by name, or as if it were a
category. -/
def Blocked (p : CommandPermissions) (rs : List AclRule) (cmd : String) : Prop :=
  denies p.sets.2 cmd = true ∨ .deny cmd ∈ rs ∨ .deny ("@" ++ cmd) ∈ rs

/-- Among the rules `rs` or in the allowed set, the command stands by name or by category. -/
def Granted (p : CommandPermissions) (rs : List AclRule) (cmd : String) : Prop :=
  allows p.sets.1 cmd = true ∨
    ∃ name, .allow name ∈ rs ∧ (name = cmd ∨ category_has name cmd = true)

theorem mem_insert_string {s : HashSet String} {a b : String} : a ∈ s.insert b ↔ a = b ∨ a ∈ s := by
  rw [Std.ExtTreeSet.mem_insert, Std.LawfulEqCmp.compare_eq_iff_eq, eq_comm]

theorem denies_iff {denied : HashSet String} {cmd : String} :
    denies denied cmd = true ↔ cmd ∈ denied ∨ ("@" ++ cmd) ∈ denied := by
  simp [denies, Std.ExtTreeSet.contains_iff_mem]

theorem allows_iff {allowed : HashSet String} {cmd : String} :
    allows allowed cmd = true ↔
      (∃ name ∈ allowed, name = cmd ∨ category_has name cmd = true) ∨ "@all" ∈ allowed := by
  simp only [allows, Bool.or_eq_true, Std.ExtTreeSet.contains_iff_mem, any_eq_true,
    Std.ExtTreeSet.mem_toList]
  constructor
  · rintro ((h | ⟨name, hn, hc⟩) | h)
    · exact .inl ⟨cmd, h, .inl rfl⟩
    · exact .inl ⟨name, hn, .inr hc⟩
    · exact .inr h
  · rintro (⟨name, hn, rfl | hc⟩ | h)
    · exact .inl (.inl hn)
    · exact .inl (.inr ⟨name, hn, hc⟩)
    · exact .inr h

theorem foldl_step_set (allowed denied : HashSet String) {rs : List AclRule}
    (hw : ∀ r ∈ rs, r.whole = false) :
    ∃ a d, rs.foldl step (.Set allowed denied) = .Set a d ∧
      (∀ x, x ∈ a ↔ x ∈ allowed ∨ .allow x ∈ rs) ∧ (∀ x, x ∈ d ↔ x ∈ denied ∨ .deny x ∈ rs) := by
  induction rs generalizing allowed denied with
  | nil => exact ⟨allowed, denied, rfl, by simp, by simp⟩
  | cons r rs ih =>
    have hw' : ∀ r ∈ rs, r.whole = false := fun r' hr' => hw r' (mem_cons_of_mem _ hr')
    have hr : r.whole = false := hw r mem_cons_self
    cases r with
    | reset | allcommands | nocommands => cases hr
    | allow name =>
      obtain ⟨a, d, h, ha, hd⟩ := ih (allowed.insert name) denied hw'
      refine ⟨a, d, h, fun x => ?_, fun x => ?_⟩
      · rw [ha, mem_insert_string]
        simp only [mem_cons, AclRule.allow.injEq]
        tauto
      · rw [hd]
        simp
    | deny name =>
      obtain ⟨a, d, h, ha, hd⟩ := ih allowed (denied.insert name) hw'
      refine ⟨a, d, h, fun x => ?_, fun x => ?_⟩
      · rw [ha]
        simp
      · rw [hd, mem_insert_string]
        simp only [mem_cons, AclRule.deny.injEq]
        tauto
    | _ =>
      obtain ⟨a, d, h, ha, hd⟩ := ih allowed denied hw'
      exact ⟨a, d, h, by simpa using ha, by simpa using hd⟩

variable (p : CommandPermissions)

theorem step_of_plain {r : AclRule} (hw : r.whole = false)
    (hm : r.marks = false) : p.step r = p := by
  cases r with
  | reset | allcommands | nocommands => cases hw
  | allow name | deny name => cases hm
  | _ => rfl

variable {rs : List AclRule}

theorem foldl_step_of_plain
    (hw : ∀ r ∈ rs, r.whole = false) (hm : ∀ r ∈ rs, r.marks = false) :
    rs.foldl step p = p := by
  induction rs with
  | nil => rfl
  | cons r rs ih =>
    rw [foldl_cons,
      step_of_plain p (hw r mem_cons_self) (hm r mem_cons_self)]
    exact ih (fun r' hr' => hw r' (mem_cons_of_mem _ hr'))
      (fun r' hr' => hm r' (mem_cons_of_mem _ hr'))

theorem foldl_step_of_marks
    (hw : ∀ r ∈ rs, r.whole = false) (hm : ∃ r ∈ rs, r.marks = true) :
    rs.foldl step p = rs.foldl step (.Set p.sets.1 p.sets.2) := by
  induction rs with
  | nil =>
    obtain ⟨r, hr, -⟩ := hm
    cases hr
  | cons r rs ih =>
    by_cases hr : r.marks = true
    · have hstep : p.step r = step (.Set p.sets.1 p.sets.2) r := by
        cases r with
        | allow name => cases p <;> rfl
        | deny name => cases p <;> rfl
        | _ => cases hr
      rw [foldl_cons, foldl_cons, hstep]
    · have hplain := fun q => step_of_plain q (hw r mem_cons_self) (by simpa using hr)
      rw [foldl_cons, foldl_cons, hplain, hplain]
      refine ih (fun r' hr' => hw r' (mem_cons_of_mem _ hr')) ?_
      obtain ⟨r', hr', hm'⟩ := hm
      rcases mem_cons.mp hr' with rfl | hr'
      · exact absurd hm' hr
      · exact ⟨r', hr', hm'⟩

/-- **What the code decides** after rules that add to the sets. -/
theorem permits_foldl (cmd : String)
    (hw : ∀ r ∈ rs, r.whole = false) (hall : .allow "@all" ∉ rs) (hm : ∃ r ∈ rs, r.marks = true) :
    (rs.foldl step p).permits cmd = true ↔ ¬ Blocked p rs cmd ∧ Granted p rs cmd := by
  rw [foldl_step_of_marks p hw hm]
  obtain ⟨a, d, h, ha, hd⟩ := foldl_step_set p.sets.1 p.sets.2 hw
  have hdenies : denies d cmd = true ↔ Blocked p rs cmd := by
    rw [denies_iff, hd, hd, Blocked, denies_iff]
    tauto
  have hallows : allows a cmd = true ↔ Granted p rs cmd := by
    rw [allows_iff, Granted, allows_iff]
    simp only [ha, hall, or_false]
    constructor
    · rintro (⟨name, hn | hn, hc⟩ | hn)
      · exact .inl (.inl ⟨name, hn, hc⟩)
      · exact .inr ⟨name, hn, hc⟩
      · exact .inl (.inr hn)
    · rintro ((⟨name, hn, hc⟩ | hn) | ⟨name, hn, hc⟩)
      · exact .inl ⟨name, .inl hn, hc⟩
      · exact .inr hn
      · exact .inl ⟨name, .inr hn, hc⟩
  rw [h, permits, Bool.and_eq_true, hallows, ← hdenies]
  simp

/-! ## When the last match decides -/

/-- The rules from the last one on that sets all commands at once, without that one. -/
def marks_of (rs : List AclRule) : List AclRule := rs.rtakeWhile (!·.whole)

/-- The rules up to the last one that sets all commands at once, with that one. -/
def whole_of (rs : List AclRule) : List AclRule := rs.rdropWhile (!·.whole)

/-- What the last rule that sets all commands at once leaves, or what was there before. -/
def base (p : CommandPermissions) (rs : List AclRule) : CommandPermissions :=
  match (whole_of rs).getLast? with
  | some r => p.step r
  | none => p

/-- No rule of `rs` takes the command away without mentioning it: there is no `+` or `-` rule
at all, or there are sets to add to and the command is not denied as if it were a category. -/
def Survives (p : CommandPermissions) (rs : List AclRule) (cmd : String) : Prop :=
  (∀ r ∈ rs, r.marks = false) ∨ (p.is_set = true ∧ .deny ("@" ++ cmd) ∉ rs)

/-- When the last match decides about the command. The rules that count are those after the
last one that sets all commands at once.

If the last of them to mention the command is a `+`, the command must not be denied in them
or before them, wherever that stands; if it is a `-`, the command must be denied by name
somewhere, or never have been granted. If none of them mentions it, they must not take away
what was there; and a `reset`, which mentions no command, must not have changed anything. -/
def LastMatchHolds (p : CommandPermissions) (rs : List AclRule) (cmd : String) : Prop :=
  match ((marks_of rs).filterMap (AclRule.verdict cmd)).getLast? with
  | some true => ¬ Blocked (base p rs) (marks_of rs) cmd
  | some false =>
    Blocked (base p rs) (marks_of rs) cmd ∨ ¬ Granted (base p rs) (marks_of rs) cmd
  | none =>
    if (whole_of rs).getLast? = some .reset then
      (last_match cmd (p.permits cmd) (whole_of rs) = true ↔
        Survives (base p rs) (marks_of rs) cmd)
    else (base p rs).permits cmd = true → Survives (base p rs) (marks_of rs) cmd

theorem marks_of_whole : ∀ r ∈ marks_of rs, r.whole = false := by
  intro r hr
  simpa using mem_rtakeWhile_imp hr

theorem whole_of_append_marks_of (rs : List AclRule) : whole_of rs ++ marks_of rs = rs :=
  rdropWhile_append_rtakeWhile ..

variable {r : AclRule} {cmd : String}

theorem getLast_whole_of (h : (whole_of rs).getLast? = some r) : r.whole = true := by
  have hne : whole_of rs ≠ [] := by
    intro hnil
    rw [hnil] at h
    cases h
  have hlast : ¬ (!((whole_of rs).getLast hne).whole) = true :=
    rdropWhile_last_not (fun r : AclRule => !r.whole) rs hne
  rw [List.getLast?_eq_some_getLast hne] at h
  injection h with h
  rw [← h]
  simpa using hlast

theorem step_of_whole (p q : CommandPermissions) (h : r.whole = true) : p.step r = q.step r := by
  cases r with
  | reset | allcommands | nocommands => rfl
  | _ => cases h

theorem foldl_whole_of (rs : List AclRule) : (whole_of rs).foldl step p = base p rs := by
  unfold base
  cases h : (whole_of rs).getLast? with
  | none =>
    rw [List.getLast?_eq_none_iff.mp h]
    rfl
  | some r =>
    obtain ⟨init, hinit⟩ := List.getLast?_eq_some_iff.mp h
    rw [hinit, foldl_append, foldl_cons, foldl_nil]
    exact step_of_whole _ _ (getLast_whole_of h)

theorem foldl_step_eq (rs : List AclRule) :
    rs.foldl step p = (marks_of rs).foldl step (base p rs) := by
  conv_lhs => rw [← whole_of_append_marks_of rs, foldl_append, foldl_whole_of]

theorem verdict_eq_true (hw : r.whole = false) (h : r.verdict cmd = some true) :
    ∃ name, r = .allow name ∧ (name = cmd ∨ category_has name cmd = true) := by
  cases r with
  | allow name =>
    refine ⟨name, rfl, ?_⟩
    by_contra hc
    rw [AclRule.verdict, if_neg hc] at h
    cases h
  | deny name =>
    rw [AclRule.verdict] at h
    split at h <;> cases h
  | allcommands => cases hw
  | _ => cases h

theorem marks_of_verdict {v : Bool} (hw : r.whole = false)
    (h : r.verdict cmd = some v) : r.marks = true := by
  cases r with
  | allow name | deny name => rfl
  | allcommands | nocommands => cases hw
  | _ => cases h

theorem permits_unmentioned {p : CommandPermissions} {rs : List AclRule}
    (hw : ∀ r ∈ rs, r.whole = false) (hall : .allow "@all" ∉ rs)
    (hv : ∀ r ∈ rs, r.verdict cmd = none) :
    (rs.foldl step p).permits cmd = true ↔ p.permits cmd = true ∧ Survives p rs cmd := by
  by_cases hm : ∃ r ∈ rs, r.marks = true
  · have hnone : ∀ name, .allow name ∈ rs → ¬ (name = cmd ∨ category_has name cmd = true) := by
      intro name hn hc
      have h := hv _ hn
      rw [AclRule.verdict, if_pos hc] at h
      cases h
    have hdeny : .deny cmd ∉ rs := by
      intro hd
      have h := hv _ hd
      rw [AclRule.verdict, if_pos (.inl rfl)] at h
      cases h
    have hmarks : ¬ ∀ r ∈ rs, r.marks = false := by
      intro h
      obtain ⟨r, hr, hr'⟩ := hm
      rw [h r hr] at hr'
      cases hr'
    rw [permits_foldl p cmd hw hall hm, Blocked, Granted, Survives]
    cases p with
    | AllowAll | DenyAll =>
      -- the sets start empty, and nothing in the rules grants the command
      have hempty : allows ∅ cmd = false := by
        rw [Bool.eq_false_iff, Ne, allows_iff]
        simp
      constructor
      · rintro ⟨-, h | ⟨name, hn, hc⟩⟩
        · simp [sets, hempty] at h
        · exact absurd hc (hnone name hn)
      · rintro ⟨-, h | ⟨h, -⟩⟩
        · exact absurd h hmarks
        · cases h
    | Set allowed denied =>
      rw [or_iff_right hmarks]
      simp only [sets, permits, is_set, Bool.and_eq_true, Bool.not_eq_true', hdeny, false_or,
        true_and, ← Bool.not_eq_true]
      constructor
      · rintro ⟨hb, hg | ⟨name, hn, hc⟩⟩
        · exact ⟨⟨fun h => hb (.inl h), hg⟩, fun h => hb (.inr h)⟩
        · exact absurd hc (hnone name hn)
      · rintro ⟨⟨hb, hg⟩, hd⟩
        exact ⟨fun h => h.elim hb hd, .inl hg⟩
  · have hplain : ∀ r ∈ rs, r.marks = false := by
      intro r hr
      by_contra h
      exact hm ⟨r, hr, by simpa using h⟩
    rw [foldl_step_of_plain p hw hplain]
    exact ⟨fun h => ⟨h, .inl hplain⟩, fun h => h.1⟩

/-- Up to a last rule that sets all commands at once and mentions them, the two readings agree. -/
theorem last_match_whole_of {p : CommandPermissions} {rs : List AclRule}
    (h : (whole_of rs).getLast? ≠ some .reset) :
    last_match cmd (p.permits cmd) (whole_of rs) = (base p rs).permits cmd := by
  unfold base
  cases hl : (whole_of rs).getLast? with
  | none =>
    rw [List.getLast?_eq_none_iff.mp hl]
    rfl
  | some r =>
    have hw := getLast_whole_of hl
    obtain ⟨init, hinit⟩ := List.getLast?_eq_some_iff.mp hl
    rw [hinit, last_match_append]
    cases r with
    | allcommands | nocommands => rfl
    | reset => exact absurd hl h
    | _ => cases hw

theorem permits_eq_last_match_iff (cmd : String)
    (hall : .allow "@all" ∉ rs) :
    (rs.foldl step p).permits cmd = last_match cmd (p.permits cmd) rs ↔
      LastMatchHolds p rs cmd := by
  have hall' : .allow "@all" ∉ marks_of rs :=
    fun h => hall ((rtakeWhile_suffix _ _).subset h)
  have hlast : last_match cmd (p.permits cmd) rs =
      last_match cmd (last_match cmd (p.permits cmd) (whole_of rs)) (marks_of rs) := by
    conv_lhs => rw [← whole_of_append_marks_of rs, last_match_append]
  rw [foldl_step_eq, hlast, LastMatchHolds]
  cases hl : ((marks_of rs).filterMap (AclRule.verdict cmd)).getLast? with
  | some v =>
    obtain ⟨r, hr, hv⟩ := mem_filterMap.mp (mem_of_getLast? hl)
    have hrw := marks_of_whole r hr
    have hV := permits_foldl (base p rs) cmd marks_of_whole hall'
      ⟨r, hr, marks_of_verdict hrw hv⟩
    rw [last_match, hl, Option.getD_some]
    cases v with
    | true =>
      obtain ⟨name, rfl, hc⟩ := verdict_eq_true hrw hv
      rw [hV]
      exact ⟨fun h => h.1, fun h => ⟨h, .inr ⟨name, hr, hc⟩⟩⟩
    | false =>
      rw [← Bool.not_eq_true, hV]
      tauto
  | none =>
    have hv : ∀ r ∈ marks_of rs, r.verdict cmd = none := by
      intro r hr
      have hnil := filterMap_eq_nil_iff.mp (List.getLast?_eq_none_iff.mp hl)
      exact hnil r hr
    have hV := permits_unmentioned (p := base p rs) marks_of_whole hall' hv
    rw [last_match, hl, Option.getD_none]
    by_cases hreset : (whole_of rs).getLast? = some .reset
    · have hbase : (base p rs).permits cmd = true := by
        rw [base, hreset]
        simp [step, AclUser.default, permits, denies, allows]
      rw [if_pos hreset, Bool.eq_iff_iff, hV, and_iff_right hbase]
      exact ⟨Iff.symm, Iff.symm⟩
    · rw [if_neg hreset, last_match_whole_of hreset, Bool.eq_iff_iff, hV]
      tauto

/-! ## ACL SETUSER -/

theorem get_user_set_user (acl : AclManager) (user : AclUser) (name : String) :
    (acl.set_user user).get_user name = if user.name = name then some user else acl.get_user name := by
  rw [AclManager.get_user, AclManager.set_user, Std.ExtTreeMap.getElem?_insert]
  simp only [Std.LawfulEqCmp.compare_eq_iff_eq]
  rfl

/-- The user ACL SETUSER starts from. -/
def setuser_before (acl : AclManager) (u : String) : AclUser :=
  (acl.get_user u).getD (.fresh u)

theorem setuser_before_name (acl : AclManager) (u : String) : (setuser_before acl u).name = u := by
  unfold setuser_before
  cases h : acl.get_user u with
  | none => rfl
  | some user => exact acl.named u user h

theorem foldl_apply_name (user : AclUser) (rs : List AclRule) :
    (rs.foldl AclUser.apply user).name = user.name := by
  induction rs generalizing user with
  | nil => rfl
  | cons r rs ih => rw [foldl_cons, ih, apply_name]

variable {F : Type}
variable {hasher : String → UInt64}

/-- ACL SETUSER with a list of texts that are all rules. -/
theorem cmd_acl_setuser_eq (acl : AclManager) (u : String)
    {args : List Bytes} {rs : List AclRule} (h : parse_rules hasher (texts args) = .ok rs) :
    cmd_acl_setuser (F := F) hasher acl (as_bytes u :: args) =
      (.SimpleString "OK", acl.set_user (rs.foldl AclUser.apply (setuser_before acl u))) := by
  simp only [cmd_acl_setuser, from_utf8_as_bytes, apply_rules_eq, h, Except.map]
  rfl

variable {acl : AclManager}

theorem parse_rules_of_setuser {acl' : AclManager} {u : String} {args : List Bytes}
    (h : cmd_acl_setuser (F := F) hasher acl (as_bytes u :: args) = (.SimpleString "OK", acl')) :
    ∃ rs, parse_rules hasher (texts args) = .ok rs := by
  simp only [cmd_acl_setuser, from_utf8_as_bytes, apply_rules_eq] at h
  cases hrs : parse_rules hasher (texts args) with
  | ok rs => exact ⟨rs, rfl⟩
  | error e =>
    rw [hrs] at h
    simp [Except.map] at h

/-- The decision on the command alone; an account can be disabled besides. -/
def AclUser.may_run (user : AclUser) (c : String) : Bool :=
  user.commands.permits (to_ascii_uppercase c)

/-- For every accepted list of rules and every command: the last rule that mentions the command
decides about it exactly when `LastMatchHolds`. -/
theorem setuser_last_match_iff (hasher : String → UInt64) (acl acl' : AclManager) (u : String)
    (args : List Bytes) (c : String)
    (h : cmd_acl_setuser (F := F) hasher acl (as_bytes u :: args) = (.SimpleString "OK", acl')) :
    ∃ rs after, parse_rules hasher (texts args) = .ok rs ∧ acl'.get_user u = some after ∧
      (after.may_run c =
          last_match (to_ascii_uppercase c) ((setuser_before acl u).may_run c) rs ↔
        LastMatchHolds (setuser_before acl u).commands rs (to_ascii_uppercase c)) := by
  obtain ⟨rs, hrs⟩ := parse_rules_of_setuser h
  refine ⟨rs, rs.foldl AclUser.apply (setuser_before acl u), hrs, ?_, ?_⟩
  · rw [cmd_acl_setuser_eq acl u hrs] at h
    injection h with _ h
    rw [← h, get_user_set_user, if_pos]
    rw [foldl_apply_name, setuser_before_name]
  · rw [AclUser.may_run, foldl_apply_commands]
    exact permits_eq_last_match_iff _ _ (parse_rules_ne_all hrs)

theorem setuser_last_match_nocommands_get :
    ∃ rs after, parse_rules (fun _ => 0) (texts [as_bytes "nocommands", as_bytes "+get"]) = .ok rs ∧
      (AclManager.new.set_user ([.nocommands, .allow "GET"].foldl AclUser.apply
        (setuser_before .new "alice"))).get_user "alice" = some after ∧
      (after.may_run "get" = last_match (to_ascii_uppercase "get")
          ((setuser_before .new "alice").may_run "get") rs ↔
        LastMatchHolds (setuser_before .new "alice").commands rs (to_ascii_uppercase "get")) :=
  setuser_last_match_iff (F := Infinity) (fun _ => 0) .new _ "alice"
    [as_bytes "nocommands", as_bytes "+get"] "get" (cmd_acl_setuser_eq _ _ rfl)

/-- `ACL SETUSER alice -get +get`: the last rule allows GET, and the user may not run it. -/
theorem setuser_deny_then_allow :
    ∃ rs after, parse_rules (fun _ => 0) (texts [as_bytes "-get", as_bytes "+get"]) = .ok rs ∧
      (cmd_acl_setuser (F := Infinity) (fun _ => 0) .new
        [as_bytes "alice", as_bytes "-get", as_bytes "+get"]).2.get_user "alice" = some after ∧
      last_match "GET" ((setuser_before .new "alice").may_run "GET") rs = true ∧
      after.may_run "GET" = false :=
  ⟨[.deny "GET", .allow "GET"], _, rfl, rfl, by decide, by decide⟩

/-! ## Passwords -/

/-- What `>p` stores, for a `p` without spaces: the text itself, without the white space at its
end and in lower case. If nothing is left, the hash of the empty text. -/
def stored_password (hasher : String → UInt64) (p : String) : String :=
  let pw := p.toList.rdropWhile is_whitespace
  if pw.isEmpty then sha256_hex hasher "" else to_ascii_lowercase (String.ofList pw)

theorem rdropWhile_cons_of_neg {α : Type} {f : α → Bool} {a : α} (l : List α) (h : ¬ f a = true) :
    (a :: l).rdropWhile f = a :: l.rdropWhile f := by
  simp [List.rdropWhile, dropWhile_append, h]

/-- The characters that a rule about a name, a password or a pattern starts with. -/
def sigils : List Char := ['+', '-', '>', '<', '~', '&']

theorem keyword_rule_of_head {c : Char} (hc : c ∈ sigils) {verb : String}
    (h : verb.toList.head? = some c) : keyword_rule verb = none := by
  unfold keyword_rule
  split <;> first | rfl | (cases h; exact absurd hc (by decide))

/-- What is read behind the first character: the text up to a space, without white space at the
end of the rule. -/
def word (cs : List Char) : List Char := (cs.rdropWhile is_whitespace).takeWhile (· ≠ ' ')

theorem parse_rule_of_sigil {rule : String} {c : Char} {cs : List Char}
    (hrule : rule.toList = c :: cs) (hc : c ∈ sigils) {r : AclRule}
    (hr : sigil_rule hasher (c :: (word cs).map Char.toLower) (after_space (trim rule)) = some r) :
    parse_rule hasher rule = .ok r := by
  obtain ⟨hblank, hspace, hlower⟩ : is_whitespace c = false ∧ c ≠ ' ' ∧ c.toLower = c := by
    simp only [sigils, mem_cons, not_mem_nil, or_false] at hc
    rcases hc with rfl | rfl | rfl | rfl | rfl | rfl <;> exact ⟨rfl, by decide, rfl⟩
  have htrim : (trim rule).toList = c :: cs.rdropWhile is_whitespace := by
    rw [trim, hrule, String.toList_ofList, dropWhile_cons_of_neg (by simp [hblank]),
      rdropWhile_cons_of_neg _ (by simp [hblank])]
  have hverb : (to_ascii_lowercase (before_space (trim rule))).toList
      = c :: (word cs).map Char.toLower := by
    rw [to_ascii_lowercase, before_space, htrim, String.toList_ofList, String.toList_ofList,
      takeWhile_cons_of_pos (by simpa using hspace), map_cons, hlower]
    rfl
  have hne : trim rule ≠ "" := by
    intro h
    rw [h] at htrim
    cases htrim
  unfold parse_rule
  rw [if_neg hne, keyword_rule_of_head hc (by rw [hverb]; rfl), Option.none_or, hverb, hr]

/-- A `>` rule without a space is a password as it stands in the verb. -/
theorem parse_rule_password (hasher : String → UInt64) {p : String} (hs : ' ' ∉ p.toList) :
    parse_rule hasher (">" ++ p) = .ok (.add_password (stored_password hasher p)) := by
  have hrule : (">" ++ p).toList = '>' :: p.toList := by rw [String.toList_append]; rfl
  have hspace : ∀ c ∈ p.toList.rdropWhile is_whitespace, (decide (c ≠ ' ')) = true := by
    intro c hc
    rw [decide_eq_true_eq]
    rintro rfl
    exact hs (( rdropWhile_prefix _ _).subset hc)
  have hword : word p.toList = p.toList.rdropWhile is_whitespace :=
    takeWhile_eq_self_iff.mpr hspace
  have harg : after_space (trim (">" ++ p)) = "" := by
    have hnone : (trim (">" ++ p)).toList.dropWhile (· ≠ ' ') = [] := by
      rw [trim, hrule, String.toList_ofList, dropWhile_cons_of_neg (by decide),
        rdropWhile_cons_of_neg _ (by decide), dropWhile_cons_of_pos (by decide)]
      exact dropWhile_eq_nil_iff.mpr hspace
    rw [after_space, hnone]
    rfl
  refine parse_rule_of_sigil hrule (by decide) ?_
  rw [hword, harg]
  change some (AclRule.add_password (if List.isEmpty (List.map _ _) then _ else _)) = _
  rw [isEmpty_map, stored_password, to_ascii_lowercase, String.toList_ofList]

theorem cmd_auth_eq_ok {timestamp : ℕ} {ctx : ClientCtx} {u q : String} :
    (cmd_auth (F := F) hasher timestamp acl ctx [as_bytes u, as_bytes q]).1 = .SimpleString "OK" ↔
      acl.authenticate hasher u q = true := by
  simp only [cmd_auth, auth_args, from_utf8_as_bytes]
  split
  · rename_i h
    simp [h]
  · rename_i h
    simp [h]

/-- The user that `ACL SETUSER u on resetkeys >p` makes of a fresh one accepts exactly the
passwords whose hash is what the rule stored. -/
theorem authenticate_setuser {u p : String}
    (hfresh : setuser_before acl u = .fresh u) (hs : ' ' ∉ p.toList) (q : String) :
    (cmd_acl_setuser (F := F) hasher acl [as_bytes u, as_bytes "on", as_bytes "resetkeys",
        as_bytes (">" ++ p)]).2.authenticate hasher u q = true ↔
      sha256_hex hasher q = stored_password hasher p := by
  have hrules : parse_rules hasher
      (texts [as_bytes "on", as_bytes "resetkeys", as_bytes (">" ++ p)]) =
        .ok [.on, .resetkeys, .add_password (stored_password hasher p)] := by
    have htexts : texts [as_bytes "on", as_bytes "resetkeys", as_bytes (">" ++ p)] =
        ["on", "resetkeys", ">" ++ p] := by
      simp [texts, Except.toOption]
    have hon : parse_rule hasher "on" = .ok .on := rfl
    have hreset : parse_rule hasher "resetkeys" = .ok .resetkeys := rfl
    simp only [htexts, parse_rules, hon, hreset, parse_rule_password hasher hs, Except.map]
  rw [cmd_acl_setuser_eq acl u hrules, hfresh]
  have hget := get_user_set_user acl ([.on, .resetkeys,
    .add_password (stored_password hasher p)].foldl AclUser.apply (.fresh u)) u
  rw [if_pos (by rw [foldl_apply_name]; rfl), AclManager.get_user] at hget
  unfold AclManager.authenticate
  rw [hget]
  simp [AclUser.apply, AclUser.fresh, AclUser.default]

/-- For every user name, password without spaces and hash function: after
`ACL SETUSER u on resetkeys >p`, AUTH accepts `p` and refuses every `q` with another hash,
exactly when the text of the password is its own hash. -/
theorem setuser_auth_iff (hasher : String → UInt64) (acl : AclManager) (timestamp : ℕ)
    (ctx : ClientCtx) (u p : String) (hfresh : setuser_before acl u = .fresh u)
    (hs : ' ' ∉ p.toList) :
    let acl' := (cmd_acl_setuser (F := F) hasher acl [as_bytes u, as_bytes "on",
      as_bytes "resetkeys", as_bytes (">" ++ p)]).2
    let auth := fun q => (cmd_auth (F := F) hasher timestamp acl' ctx [as_bytes u, as_bytes q]).1
    (auth p = .SimpleString "OK" ∧
        ∀ q, sha256_hex hasher q ≠ sha256_hex hasher p → auth q ≠ .SimpleString "OK") ↔
      sha256_hex hasher p = stored_password hasher p := by
  simp only [Ne, cmd_auth_eq_ok, authenticate_setuser hfresh hs]
  constructor
  · rintro ⟨h, -⟩
    exact h
  · intro h
    refine ⟨h, fun q hq hq' => ?_⟩
    exact hq (hq'.trans h.symm)

/-- With a hash that is zero everywhere, the password of sixteen zeros is its own hash. -/
theorem setuser_auth_zeros :
    let acl := (cmd_acl_setuser (F := Infinity) (fun _ => 0) .new [as_bytes "alice",
      as_bytes "on", as_bytes "resetkeys", as_bytes (">" ++ "0000000000000000")]).2
    let auth := fun q =>
      (cmd_auth (F := Infinity) (fun _ => 0) 0 acl (.new 1) [as_bytes "alice", as_bytes q]).1
    auth "0000000000000000" = .SimpleString "OK" ∧
      ∀ q, sha256_hex (fun _ => 0) q ≠ sha256_hex (fun _ => 0) "0000000000000000" →
        auth q ≠ .SimpleString "OK" :=
  (setuser_auth_iff (fun _ => 0) .new 0 (.new 1) "alice" "0000000000000000" rfl
    (by decide)).mpr (by decide)

theorem sha256_hex_length (hasher : String → UInt64) (s : String) :
    16 ≤ (sha256_hex hasher s).toList.length := by
  rw [sha256_hex, String.toList_ofList, length_leftpad]
  exact Nat.le_max_left ..

/-- `ACL SETUSER alice on resetkeys >secret`, `AUTH alice secret`: refused under every hash. -/
theorem setuser_auth_secret :
    ¬ ∃ hasher : String → UInt64,
      (cmd_auth (F := Infinity) hasher 0 (cmd_acl_setuser (F := Infinity) hasher .new
          [as_bytes "alice", as_bytes "on", as_bytes "resetkeys", as_bytes (">" ++ "secret")]).2
        (.new 1) [as_bytes "alice", as_bytes "secret"]).1 = .SimpleString "OK" := by
  rintro ⟨hasher, h⟩
  rw [cmd_auth_eq_ok, authenticate_setuser rfl (by decide)] at h
  have hlen := sha256_hex_length hasher "secret"
  have hstored : stored_password hasher "secret" = "secret" := rfl
  rw [h, hstored] at hlen
  exact absurd hlen (by decide)

end ValkeyRs.Acl
