import Mathlib.Data.Nat.Digits.Defs
import Mathlib.Data.List.DropRight
import Std.Data.ExtTreeMap
import WebServer.Foundation.Search

/-!
# Byte strings

A `std::string` is a list of bytes. This module holds the parts of the C++ library the server calls
on strings: the decimal text of a number and its value, the white space of the "C" locale, the
extraction of a word from an input stream, and trimming. Searching is `Search.find`.
-/

namespace WebServer

abbrev Byte := UInt8

abbrev Bytes := List Byte

/-- `std::map<std::string, std::string>`: iteration is in byte order of the keys. -/
abbrev StringMap := Std.ExtTreeMap Bytes Bytes

namespace Bytes

/-- The bytes of a string literal of the source, which is encoded in UTF-8. -/
def lit (text : String) : Bytes := text.toList.flatMap String.utf8EncodeChar

def cr : Byte := 13
def lf : Byte := 10
def slash : Byte := 47
def dot : Byte := 46
def colon : Byte := 58
def nul : Byte := 0

def crlf : Bytes := [cr, lf]

/-- The blank line that ends a header block: "\r\n\r\n". -/
def blankLine : Bytes := [cr, lf, cr, lf]

/-- `raw.substr(pos, count)`. -/
def substr (text : Bytes) (pos count : ℕ) : Bytes := (text.drop pos).take count

/-- What a C string function sees of a `std::string`: the bytes before the first NUL. -/
def cString (text : Bytes) : Bytes := text.takeWhile (· ≠ nul)

/-! ## Numbers -/

def digit (d : ℕ) : Byte := UInt8.ofNat (48 + d)

/-- `std::to_string` of a number that is not negative. -/
def decimal (n : ℕ) : Bytes := if n = 0 then [digit 0] else (Nat.digits 10 n).reverse.map digit

/-- `std::isdigit`. -/
def isDigit (c : Byte) : Bool := 48 ≤ c && c ≤ 57

/-- The value of a string of decimal digits, without a bound. -/
def decimalValue (text : Bytes) : ℕ := Nat.ofDigits 10 (text.reverse.map fun c ↦ c.toNat - 48)

theorem toNat_digit {d : ℕ} (hd : d < 10) : (digit d).toNat = 48 + d := by
  rw [digit, UInt8.toNat_ofNat']
  omega

theorem isDigit_digit {d : ℕ} (hd : d < 10) : isDigit (digit d) = true := by
  have h := toNat_digit hd
  simp only [isDigit, Bool.and_eq_true, decide_eq_true_eq, UInt8.le_iff_toNat_le, h]
  exact ⟨by simp, by simp; omega⟩

theorem isDigit_of_mem_decimal {n : ℕ} {c : Byte} (hc : c ∈ decimal n) : isDigit c = true := by
  unfold decimal at hc
  split at hc
  · rw [List.mem_singleton.mp hc]
    exact isDigit_digit (by norm_num)
  · obtain ⟨d, hd, rfl⟩ := List.mem_map.mp hc
    exact isDigit_digit (Nat.digits_lt_base (by norm_num) (List.mem_reverse.mp hd))

theorem decimal_ne_nil (n : ℕ) : decimal n ≠ [] := by
  unfold decimal
  split
  · simp
  · rename_i hn
    simpa [Nat.digits_ne_nil_iff_ne_zero] using hn

/-- Reading the decimal text of a number gives the number back. -/
@[simp]
theorem decimalValue_decimal (n : ℕ) : decimalValue (decimal n) = n := by
  unfold decimal
  split
  · rename_i hn
    subst hn
    rfl
  · have hdigits : (Nat.digits 10 n).map (fun d ↦ (digit d).toNat - 48) = Nat.digits 10 n := by
      conv_rhs => rw [← List.map_id (Nat.digits 10 n)]
      refine List.map_congr_left fun d hd ↦ ?_
      rw [toNat_digit (Nat.digits_lt_base (by norm_num) hd)]
      simp
    rw [decimalValue, ← List.map_reverse, List.reverse_reverse, List.map_map]
    exact (congrArg (Nat.ofDigits 10) hdigits).trans (Nat.ofDigits_digits 10 n)

/-- No byte of a decimal text is one that has a meaning in a header line. -/
theorem notMem_decimal {n : ℕ} {c : Byte} (hc : isDigit c = false) : c ∉ decimal n := by
  intro hmem
  rw [isDigit_of_mem_decimal hmem] at hc
  exact absurd hc (by simp)

/-! ## White space -/

/-- `std::isspace` in the "C" locale: space, and the bytes from tab to carriage return. -/
def isSpace (c : Byte) : Bool := c = 32 || (9 ≤ c && c ≤ 13)

/-- The bytes trimmed from a header value, `" \t"`. -/
def isBlank (c : Byte) : Bool := c = 32 || c = 9

/-- Cut `text` from its first to its last byte that is neither a space nor a tab. -/
def trim (text : Bytes) : Bytes := (text.dropWhile isBlank).rdropWhile isBlank

/-- `stream >> word`: skip white space, then read up to the next white space or the end. -/
def extractWord (text : Bytes) : Option (Bytes × Bytes) :=
  let rest := text.dropWhile isSpace
  let word := rest.takeWhile (!isSpace ·)
  if word = [] then none else some (word, rest.dropWhile (!isSpace ·))

theorem trim_of_no_blank_ends {text : Bytes} (hhead : ∀ c ∈ text.head?, isBlank c = false)
    (hlast : ∀ c ∈ text.getLast?, isBlank c = false) : trim text = text := by
  have hdrop : text.dropWhile isBlank = text := by
    cases text with
    | nil => rfl
    | cons c text => exact List.dropWhile_cons_of_neg (by simp [hhead c rfl])
  rw [trim, hdrop, List.rdropWhile_eq_self_iff]
  intro hne
  simp [hlast _ (List.getLast?_eq_some_getLast hne)]

/-- Trimming removes the blank a header line is written with. -/
theorem trim_cons_blank {c : Byte} {text : Bytes} (hc : isBlank c = true) :
    trim (c :: text) = trim text := by
  rw [trim, List.dropWhile_cons_of_pos hc, trim]

/-- A word without white space that is followed by white space or by nothing is extracted whole. -/
theorem extractWord_append {word rest : Bytes} (hne : word ≠ [])
    (hword : ∀ c ∈ word, isSpace c = false) (hrest : ∀ c ∈ rest.head?, isSpace c = true) :
    extractWord (word ++ rest) = some (word, rest) := by
  have hskip : (word ++ rest).dropWhile isSpace = word ++ rest := by
    cases word with
    | nil => exact absurd rfl hne
    | cons c word =>
      exact List.dropWhile_cons_of_neg (by simp [hword c List.mem_cons_self])
  have hwhole : ∀ c ∈ word, (!isSpace c) = true := fun c hc ↦ by simp [hword c hc]
  have hstop : rest.takeWhile (!isSpace ·) = [] ∧ rest.dropWhile (!isSpace ·) = rest := by
    cases rest with
    | nil => exact ⟨rfl, rfl⟩
    | cons c rest => simp [hrest c rfl]
  unfold extractWord
  simp only [hskip, List.takeWhile_append_of_pos hwhole, List.dropWhile_append_of_pos hwhole,
    hstop, List.append_nil, if_neg hne]

/-- An extracted word contains no white space. -/
theorem isSpace_of_extractWord {text word rest : Bytes} (h : extractWord text = some (word, rest)) :
    ∀ c ∈ word, isSpace c = false := by
  unfold extractWord at h
  dsimp only at h
  split at h
  · exact absurd h (by simp)
  · obtain ⟨rfl, -⟩ := Prod.mk.inj (Option.some.inj h)
    intro c hc
    simpa using List.mem_takeWhile_imp hc

theorem extractWord_skip {c : Byte} {text : Bytes} (hc : isSpace c = true) :
    extractWord (c :: text) = extractWord text := by
  unfold extractWord
  rw [List.dropWhile_cons_of_pos hc]

end Bytes

/-- `std::tolower` in the "C" locale. -/
def toLower (c : Byte) : Byte := if 65 ≤ c ∧ c ≤ 90 then c + 32 else c

end WebServer
