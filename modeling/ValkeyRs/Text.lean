/-
Byte strings, UTF-8 text and decimal integers: the part of Rust's standard library that the server
reads its input with.

A `Bytes` of the source is a list of bytes here, and a Rust `String` is a Lean `String`, which is
UTF-8 by construction just as Rust's is.

`str::parse` reads an optional sign and then digits one at a time, checking for overflow after each,
so which error it reports on a bad string depends on which defect comes first; `parse_digits` is
that loop. Its bound is an argument rather than a constant because two readings of the same parser
are needed later: the machine's, with a bound, and one over unbounded naturals, with none.
-/
import Mathlib

set_option autoImplicit false

open List

namespace ValkeyRs.Text

/-! ## Bytes and UTF-8 -/

/-- `bytes::Bytes`: an immutable byte string. -/
abbrev Bytes := List UInt8

/-- `std::str::Utf8Error`. Its `error_len` is never read by the server and is left out. -/
structure Utf8Error where
  valid_up_to : ℕ
  deriving Repr, DecidableEq

/-- `str::as_bytes`. -/
def as_bytes (s : String) : Bytes := s.toByteArray.data.toList

/-- The length of the longest prefix of `b` that is valid UTF-8, among the prefixes of
length at most `n`. -/
def valid_head (b : Bytes) : ℕ → ℕ
  | 0 => 0
  | n + 1 => if (ByteArray.mk (b.take (n + 1)).toArray).IsValidUTF8 then n + 1 else valid_head b n

/-- `std::str::from_utf8`. -/
def from_utf8 (b : Bytes) : Except Utf8Error String :=
  match String.fromUTF8? ⟨b.toArray⟩ with
  | some s => .ok s
  | none => .error ⟨valid_head b b.length⟩

@[simp] theorem from_utf8_as_bytes (s : String) : from_utf8 (as_bytes s) = .ok s := by
  have hb : (⟨(as_bytes s).toArray⟩ : ByteArray) = s.toByteArray := by
    simp [as_bytes]
  unfold from_utf8 String.fromUTF8?
  simp only [hb, s.isValidUTF8, dite_true]
  rfl

/-- Text, and the replacement character for everything that is none. -/
def lossy_text (b : Bytes) : String := (from_utf8 b).toOption.getD "�"

theorem lossy_text_as_bytes (s : String) : lossy_text (as_bytes s) = s := by
  unfold lossy_text
  rw [from_utf8_as_bytes]
  rfl

theorem as_bytes_of_from_utf8 {b : Bytes} {s : String} (h : from_utf8 b = .ok s) :
    as_bytes s = b := by
  unfold from_utf8 String.fromUTF8? at h
  split at h
  · rename_i t ht
    split at ht
    · cases ht
      cases h
      simp [as_bytes, String.fromUTF8]
    · cases ht
  · cases h

theorem as_bytes_eq_flatMap (s : String) : as_bytes s = s.toList.flatMap String.utf8EncodeChar := by
  rw [as_bytes, ← String.utf8Encode_toList, List.utf8Encode, data_toByteArray]

theorem as_bytes_append (s t : String) : as_bytes (s ++ t) = as_bytes s ++ as_bytes t := by
  simp [as_bytes]

/-! ## ASCII case -/

/-- `str::to_ascii_uppercase`. -/
def to_ascii_uppercase (s : String) : String := String.ofList (s.toList.map Char.toUpper)

/-- `str::to_ascii_lowercase`. -/
def to_ascii_lowercase (s : String) : String := String.ofList (s.toList.map Char.toLower)

def option_name (opt : Bytes) : Option String := (from_utf8 opt).toOption.map to_ascii_uppercase

/-- `u8::to_ascii_lowercase`. -/
def byte_lower (b : UInt8) : UInt8 := if 65 ≤ b ∧ b ≤ 90 then b + 32 else b

/-- `<[u8]>::eq_ignore_ascii_case`. -/
def eq_ignore_ascii_case (a b : Bytes) : Bool := a.map byte_lower == b.map byte_lower

/-- `str::to_lowercase`, as far as its result is ASCII: outside of the capital letters only the
Kelvin sign has an ASCII lower case, and every other character is left alone. -/
def to_lowercase (s : String) : String :=
  String.ofList (s.toList.map fun c => if c = '\u212a' then 'k' else c.toLower)

/-! ## Cutting text -/

/-- `char::is_whitespace`, the Unicode property `White_Space`. -/
def is_whitespace (c : Char) : Bool :=
  let n := c.toNat
  (0x09 ≤ n && n ≤ 0x0d) || n = 0x20 || n = 0x85 || n = 0xa0 || n = 0x1680 ||
    (0x2000 ≤ n && n ≤ 0x200a) || n = 0x2028 || n = 0x2029 || n = 0x202f || n = 0x205f || n = 0x3000

/-- `str::trim`. -/
def trim (s : String) : String :=
  String.ofList ((s.toList.dropWhile is_whitespace).rdropWhile is_whitespace)

/-- The first part of `s.splitn(2, ' ')`. -/
def before_space (s : String) : String := String.ofList (s.toList.takeWhile (· ≠ ' '))

/-- The second part of `s.splitn(2, ' ')`, or nothing when there is no space. -/
def after_space (s : String) : String :=
  String.ofList ((s.toList.dropWhile (· ≠ ' ')).drop 1)

/-- `str::lines`: no line behind the last line end, and no carriage return at the end of one. -/
def lines (s : String) : List String :=
  let pieces := s.toList.splitOn '\n'
  let pieces := if pieces.getLast? = some [] then pieces.dropLast else pieces
  pieces.map fun l => String.ofList (if l.getLast? = some '\r' then l.dropLast else l)

/-- `str::split_whitespace`. -/
def split_whitespace (s : String) : List String :=
  ((s.toList.splitOnP is_whitespace).filter (· ≠ [])).map String.ofList

/-! ## Reading integers -/

/-- `std::num::IntErrorKind`, the content of a `ParseIntError`. -/
inductive ParseIntError where
  | Empty
  | InvalidDigit
  | PosOverflow
  | NegOverflow
  deriving Repr, DecidableEq

/-- Whether a magnitude is within a bound, if there is one. -/
def fits (max : Option ℕ) (n : ℕ) : Bool :=
  match max with
  | none => true
  | some m => decide (n ≤ m)

/-- The digit loop of `from_str_radix` at radix ten. The overflow check comes after the
digit check of the same character and before anything is known of the next one. -/
def parse_digits (max : Option ℕ) (overflow : ParseIntError) : ℕ → List Char → Except ParseIntError ℕ
  | acc, [] => .ok acc
  | acc, c :: cs =>
    if c.isDigit then
      if fits max (10 * acc + (c.toNat - '0'.toNat)) then
        parse_digits max overflow (10 * acc + (c.toNat - '0'.toNat)) cs
      else .error overflow
    else .error .InvalidDigit

/-- `str::parse` at a signed type: `pos` bounds the value and `neg` its magnitude below
zero. -/
def parse_signed (pos neg : Option ℕ) (s : String) : Except ParseIntError ℤ :=
  match s.toList with
  | [] => .error .Empty
  | ['+'] | ['-'] => .error .InvalidDigit
  | '+' :: ds => (parse_digits pos .PosOverflow 0 ds).map Int.ofNat
  | '-' :: ds => (parse_digits neg .NegOverflow 0 ds).map (fun n : ℕ => -(n : ℤ))
  | ds => (parse_digits pos .PosOverflow 0 ds).map Int.ofNat

/-- `str::parse` at an unsigned type: a minus sign is just a character that is no digit. -/
def parse_unsigned (max : Option ℕ) (s : String) : Except ParseIntError ℕ :=
  match s.toList with
  | [] => .error .Empty
  | ['+'] | ['-'] => .error .InvalidDigit
  | '+' :: ds => parse_digits max .PosOverflow 0 ds
  | ds => parse_digits max .PosOverflow 0 ds

/-- `i64::MAX` and the magnitude of `i64::MIN`, at a width given in bits. -/
def signed_max (bits : Option ℕ) : Option ℕ := bits.map (fun w => 2 ^ (w - 1) - 1)

def signed_min (bits : Option ℕ) : Option ℕ := bits.map (fun w => 2 ^ (w - 1))

/-- `usize::MAX`, at a width given in bits. -/
def unsigned_max (bits : Option ℕ) : Option ℕ := bits.map (fun w => 2 ^ w - 1)

/-- `str::parse::<i64>`, or its unbounded reading when there is no width. -/
def parse_int (bits : Option ℕ) (s : String) : Except ParseIntError ℤ :=
  parse_signed (signed_max bits) (signed_min bits) s

/-- `str::parse::<usize>`, or its unbounded reading when there is no width. -/
def parse_nat (bits : Option ℕ) (s : String) : Except ParseIntError ℕ :=
  parse_unsigned (unsigned_max bits) s

/-! ## Reading back a printed integer

`to_string` prints with `Nat.repr`, that is `Nat.toDigits 10`; core already knows that the
digits of `n` fold back to `n` (`Nat.ofDigitChars_ten_toDigits`), so what is left is that
the bound is not met on the way: every prefix of the digits folds to at most `n`. -/

theorem fits_mono {max : Option ℕ} {m n : ℕ} (h : m ≤ n) (hn : fits max n = true) :
    fits max m = true := by
  cases max with
  | none => rfl
  | some k =>
    simp only [fits, decide_eq_true_eq] at hn ⊢
    omega

theorem le_ofDigitChars (cs : List Char) (acc : ℕ) : acc ≤ Nat.ofDigitChars 10 cs acc := by
  rw [Nat.ofDigitChars_eq_ofDigitChars_zero]
  have h : 1 * acc ≤ 10 ^ cs.length * acc := Nat.mul_le_mul_right acc (Nat.one_le_pow _ _ (by decide))
  omega

theorem parse_digits_eq (max : Option ℕ) (overflow : ParseIntError) (cs : List Char) (acc : ℕ)
    (hd : ∀ c ∈ cs, c.isDigit = true) (hfit : fits max (Nat.ofDigitChars 10 cs acc) = true) :
    parse_digits max overflow acc cs = .ok (Nat.ofDigitChars 10 cs acc) := by
  induction cs generalizing acc with
  | nil => rw [parse_digits, Nat.ofDigitChars_nil]
  | cons c cs ih =>
    rw [Nat.ofDigitChars_cons] at hfit ⊢
    rw [parse_digits, if_pos (hd c (by simp)), if_pos (fits_mono (le_ofDigitChars cs _) hfit)]
    exact ih _ (fun x hx => hd x (by simp [hx])) hfit

theorem isDigit_of_mem_toDigits {n : ℕ} {c : Char} (h : c ∈ Nat.toDigits 10 n) :
    c.isDigit = true :=
  Nat.isDigit_of_mem_toDigits (by decide) (by decide) h

theorem parse_digits_toDigits (max : Option ℕ) (overflow : ParseIntError) (n : ℕ)
    (hfit : fits max n = true) : parse_digits max overflow 0 (Nat.toDigits 10 n) = .ok n := by
  have h := parse_digits_eq max overflow (Nat.toDigits 10 n) 0
    (fun c hc => isDigit_of_mem_toDigits hc) (by rwa [Nat.ofDigitChars_ten_toDigits])
  rwa [Nat.ofDigitChars_ten_toDigits] at h

theorem toDigits_cons (n : ℕ) : ∃ c cs, Nat.toDigits 10 n = c :: cs ∧ c.isDigit = true := by
  obtain ⟨c, cs, h⟩ := exists_cons_of_ne_nil (Nat.toDigits_ne_nil (n := n) (b := 10))
  exact ⟨c, cs, h, isDigit_of_mem_toDigits (n := n) (by rw [h]; simp)⟩

/-- `parse::<usize>` reads back what `to_string` printed. -/
theorem parse_unsigned_repr (max : Option ℕ) (n : ℕ) (hfit : fits max n = true) :
    parse_unsigned max (toString n) = .ok n := by
  obtain ⟨c, cs, hcs, hc⟩ := toDigits_cons n
  unfold parse_unsigned
  rw [Nat.toString_eq_repr, Nat.toList_repr]
  have h := parse_digits_toDigits max .PosOverflow n hfit
  rw [hcs] at h ⊢
  split <;> simp_all

/-- `parse::<i64>` reads back what `to_string` printed. -/
theorem parse_signed_repr (pos neg : Option ℕ) (n : ℤ)
    (hpos : 0 ≤ n → fits pos n.toNat = true) (hneg : n < 0 → fits neg (-n).toNat = true) :
    parse_signed pos neg (toString n) = .ok n := by
  rw [Int.toString_eq_repr, Int.repr_eq_if]
  unfold parse_signed
  split_ifs with hn
  · obtain ⟨c, cs, hcs, hc⟩ := toDigits_cons n.toNat
    have h := parse_digits_toDigits pos .PosOverflow n.toNat (hpos hn)
    rw [Nat.toList_repr, hcs]
    rw [hcs] at h
    split <;> simp_all [Except.map]
  · -- below zero the text is a minus sign and the digits of the magnitude
    obtain ⟨c, cs, hcs, hc⟩ := toDigits_cons (-n).toNat
    have h := parse_digits_toDigits neg .NegOverflow (-n).toNat (hneg (by omega))
    have hl : ("-" ++ (-n).toNat.repr).toList = '-' :: Nat.toDigits 10 (-n).toNat := by
      rw [String.toList_append, Nat.toList_repr]; rfl
    rw [hl, hcs]
    rw [hcs] at h
    simp only [h, Except.map]
    congr 1
    omega

theorem toString_natCast (n : ℕ) : toString (n : ℤ) = toString n := by
  rw [Int.toString_eq_repr, Int.repr_eq_if, if_pos (Int.natCast_nonneg n), Int.toNat_natCast,
    Nat.toString_eq_repr]

theorem mem_toString_int {n : ℤ} {c : Char} (h : c ∈ (toString n).toList) :
    c.isDigit = true ∨ c = '-' := by
  rw [Int.toString_eq_repr, Int.repr_eq_if] at h
  split_ifs at h
  · rw [Nat.toList_repr] at h
    exact .inl (isDigit_of_mem_toDigits h)
  · rw [String.toList_append, Nat.toList_repr, mem_append] at h
    rcases h with h | h
    · exact .inr (by simpa using h)
    · exact .inl (isDigit_of_mem_toDigits h)

theorem length_toString_int {n : ℤ} {e : ℕ} (he : 0 < e) (h : n.natAbs < 10 ^ e) :
    (as_bytes (toString n)).length ≤ 4 * (e + 1) := by
  have hbytes : ∀ cs : List Char, (cs.flatMap String.utf8EncodeChar).length ≤ 4 * cs.length := by
    intro cs
    induction cs with
    | nil => simp
    | cons c cs ih =>
      have hc : (String.utf8EncodeChar c).length ≤ 4 := by
        rw [String.length_utf8EncodeChar]
        exact c.utf8Size_le_four
      rw [flatMap_cons, length_append, length_cons]
      omega
  have hchars : (toString n).toList.length ≤ e + 1 := by
    rw [Int.toString_eq_repr, Int.repr_eq_if]
    split_ifs with hn
    · have hdigits := Nat.toDigits_length 10 n.toNat e he (by omega)
      rw [Nat.toList_repr]
      omega
    · have hdigits := Nat.toDigits_length 10 (-n).toNat e he (by omega)
      rw [String.toList_append, Nat.toList_repr, length_append]
      have hsign : "-".toList.length = 1 := rfl
      omega
  have hall := hbytes (toString n).toList
  rw [as_bytes_eq_flatMap]
  omega

theorem toNat_of_mem_toString {n : ℤ} {b : UInt8} (h : b ∈ as_bytes (toString n)) :
    45 ≤ b.toNat ∧ b.toNat ≤ 57 := by
  rw [as_bytes_eq_flatMap, mem_flatMap] at h
  obtain ⟨c, hc, hmem⟩ := h
  have hval : 45 ≤ c.val.toNat ∧ c.val.toNat ≤ 57 := by
    rcases mem_toString_int hc with hd | rfl
    · simp only [Char.isDigit, Bool.and_eq_true, decide_eq_true_eq, UInt32.le_iff_toNat_le] at hd
      exact ⟨le_trans (by decide) hd.1, hd.2⟩
    · decide
  rw [String.utf8EncodeChar, if_pos (by omega), mem_singleton] at hmem
  have hbyte := congrArg UInt8.toNat hmem
  rw [UInt8.toNat_ofNat', Nat.mod_eq_of_lt (by omega)] at hbyte
  omega

theorem cr_notMem_toString (n : ℤ) : (13 : UInt8) ∉ as_bytes (toString n) := by
  intro h
  have hrange := toNat_of_mem_toString h
  exact absurd hrange.1 (by decide)

end ValkeyRs.Text
