import WebServer.Foundation.Lines
import WebServer.Service.RouteTable

/-!
# Line feeds behind percent escapes

A path as a client sends it has no white space, so the name of a static file gets a line feed from its
percent escapes only. Decoding replaces the escapes of the path one by one, and an escape is not cut by
the router, which splits at slashes: the name has a line feed just if "%0A" or "%0a" stands in the path.
-/

namespace WebServer

open Bytes Lines

/-- An escape that stands for a line feed is in the text. -/
def EscapesLineFeed (text : Bytes) : Prop := lit "%0A" <:+: text ∨ lit "%0a" <:+: text

instance (text : Bytes) : Decidable (EscapesLineFeed text) := inferInstanceAs (Decidable (_ ∨ _))

/-! ## Decoding -/

/-- The digits of an escape that stands for a line feed, among all digits. -/
theorem hexVal_digits (c : Byte) : (hexVal c = some 0 ↔ c = 48) ∧
    (hexVal c = some 10 ↔ c = 65 ∨ c = 97) ∧ ∀ value ∈ hexVal c, value < 16 := by
  have h : ∀ n < 256, (hexVal (UInt8.ofNat n) = some 0 ↔ UInt8.ofNat n = 48) ∧
      (hexVal (UInt8.ofNat n) = some 10 ↔ UInt8.ofNat n = 65 ∨ UInt8.ofNat n = 97) ∧
      ∀ value ∈ hexVal (UInt8.ofNat n), value < 16 := by
    decide +kernel
  have hc := h c.toNat c.toNat_lt
  rwa [UInt8.ofNat_toNat] at hc

theorem hexVal_percent : hexVal 37 = none := by decide

theorem not_escapesLineFeed_of_length {text : Bytes} (h : text.length < 3) : ¬ EscapesLineFeed text := by
  rintro (hupper | hlower)
  · exact absurd hupper.length_le (Nat.not_le_of_lt h)
  · exact absurd hlower.length_le (Nat.not_le_of_lt h)

theorem escapesLineFeed_cons {c : Byte} {text : Bytes} : EscapesLineFeed (c :: text) ↔
    (lit "%0A" <+: c :: text ∨ lit "%0a" <+: c :: text) ∨ EscapesLineFeed text := by
  unfold EscapesLineFeed
  rw [List.infix_cons_iff, List.infix_cons_iff]
  tauto

theorem escapesLineFeed_cons_of_ne {c : Byte} (hc : c ≠ 37) {text : Bytes} :
    EscapesLineFeed (c :: text) ↔ EscapesLineFeed text := by
  have hupper : lit "%0A" = [37, 48, 65] := by decide
  have hlower : lit "%0a" = [37, 48, 97] := by decide
  rw [escapesLineFeed_cons, hupper, hlower]
  simp [hc.symm]

/-- A percent sign begins an escape of a line feed just if two digits behind it have this value. -/
theorem escapesLineFeed_percent {d e : Byte} {rest : Bytes} :
    EscapesLineFeed (37 :: d :: e :: rest) ↔
      (hexVal d = some 0 ∧ hexVal e = some 10) ∨ EscapesLineFeed (d :: e :: rest) := by
  have hupper : lit "%0A" = [37, 48, 65] := by decide
  have hlower : lit "%0a" = [37, 48, 97] := by decide
  rw [escapesLineFeed_cons, hupper, hlower, (hexVal_digits d).1, (hexVal_digits e).2.1]
  simp only [List.cons_prefix_cons, List.nil_prefix, and_true, true_and, and_or_left, eq_comm]

/-- The byte that two digits stand for is a line feed just if the digits are 0 and 10. -/
theorem lf_eq_digits_iff {hi lo : ℕ} (hhi : hi < 16) (hlo : lo < 16) :
    lf = UInt8.ofNat (16 * hi + lo) ↔ hi = 0 ∧ lo = 10 := by
  rw [← UInt8.toNat_inj, UInt8.toNat_ofNat', Nat.mod_eq_of_lt (by omega)]
  change 10 = 16 * hi + lo ↔ _
  omega

/-- Decoding a text without line feeds brings one in just if the text escapes one. -/
theorem lf_mem_urlDecode_iff {text : Bytes} (h : lf ∉ text) :
    lf ∈ urlDecode text ↔ EscapesLineFeed text := by
  induction text using urlDecode.induct with
  | case1 => exact iff_of_false h (not_escapesLineFeed_of_length (by decide))
  | case2 c => exact iff_of_false h (not_escapesLineFeed_of_length (by simp))
  | case3 c d => exact iff_of_false h (not_escapesLineFeed_of_length (by simp))
  | case4 d e rest hi lo hlo hhi ih =>
    -- the digits of an escape do not begin another one
    have hd : d ≠ 37 := by
      rintro rfl
      exact absurd (hexVal_percent.symm.trans hhi) (by simp)
    have he : e ≠ 37 := by
      rintro rfl
      exact absurd (hexVal_percent.symm.trans hlo) (by simp)
    have hrest : lf ∉ rest := fun hmem ↦ h (by simp [hmem])
    have hdecode : urlDecode (37 :: d :: e :: rest) = UInt8.ofNat (16 * hi + lo) :: urlDecode rest := by
      rw [urlDecode, if_pos rfl, hhi, hlo]
    rw [hdecode, List.mem_cons, lf_eq_digits_iff ((hexVal_digits d).2.2 hi hhi)
      ((hexVal_digits e).2.2 lo hlo), ih hrest, escapesLineFeed_percent,
      escapesLineFeed_cons_of_ne hd, escapesLineFeed_cons_of_ne he, hhi, hlo]
    simp only [Option.some.injEq]
  | case5 d e rest hnot ih =>
    have hdecode : urlDecode (37 :: d :: e :: rest) = 37 :: urlDecode (d :: e :: rest) := by
      rw [urlDecode, if_pos rfl]
      split
      · rename_i hi lo hhi hlo
        exact (hnot hi lo hhi hlo).elim
      · rfl
    have hlf : lf ≠ 37 := by decide
    rw [hdecode, List.mem_cons, ih fun hmem ↦ h (List.mem_cons_of_mem _ hmem), escapesLineFeed_percent]
    constructor
    · exact fun hmem ↦ .inr (hmem.resolve_left hlf)
    · rintro (⟨hd, he⟩ | hrest)
      · exact (hnot 0 10 hd he).elim
      · exact .inr hrest
  | case6 c d e rest hc ih =>
    have hdecode : urlDecode (c :: d :: e :: rest) = c :: urlDecode (d :: e :: rest) := by
      rw [urlDecode, if_neg hc]
    have hhead : lf ≠ c := fun heq ↦ h (by simp [heq])
    rw [hdecode, List.mem_cons, ih fun hmem ↦ h (List.mem_cons_of_mem _ hmem),
      escapesLineFeed_cons_of_ne hc]
    simp [hhead]

/-! ## From the path to the name -/

/-- A pattern without slashes is found in a path just if it is found in a component. -/
theorem infix_iff_components {pattern : Bytes} (hslash : slash ∉ pattern) (hne : pattern ≠ [])
    (path : Bytes) : pattern <:+: path ↔ ∃ component ∈ components path, pattern <:+: component := by
  rw [infix_iff_splitOn hslash hne]
  constructor
  · rintro ⟨part, hpart, hinfix⟩
    have hpartne : part ≠ [] := hinfix.ne_nil hne
    exact ⟨part, List.mem_filter.mpr ⟨hpart, decide_eq_true hpartne⟩, hinfix⟩
  · rintro ⟨part, hpart, hinfix⟩
    exact ⟨part, (List.mem_filter.mp hpart).1, hinfix⟩

/-- A pattern that the first component does not have is found in the others joined just if it is found
in the path. -/
theorem infix_rejoined_iff {pattern : Bytes} (hslash : slash ∉ pattern) (hne : pattern ≠ [])
    {path first : Bytes} {rest : List Bytes} (hcomponents : components path = first :: rest)
    (hfirst : ¬ pattern <:+: first) : pattern <:+: List.intercalate [slash] rest ↔ pattern <:+: path := by
  rw [infix_intercalate_iff hslash hne, infix_iff_components hslash hne, hcomponents,
    List.exists_mem_cons_iff]
  exact (or_iff_right hfirst).symm

/-- The name of a requested file has a line feed just if the path escapes one. -/
theorem lf_mem_requestedFile_iff {request : HttpRequest} {rel : Bytes}
    (h : requestedFile request = some rel) (hpath : lf ∉ request.path) :
    lf ∈ rel ↔ EscapesLineFeed request.path := by
  obtain ⟨-, rest, hcomponents, rfl⟩ := requestedFile_eq_some_iff.mp h
  have hrest : lf ∉ List.intercalate [slash] rest := by
    rw [← List.singleton_infix_iff, infix_rejoined_iff (by decide) (by decide) hcomponents (by decide),
      List.singleton_infix_iff]
    exact hpath
  rw [lf_mem_urlDecode_iff hrest, EscapesLineFeed,
    infix_rejoined_iff (by decide) (by decide) hcomponents (by decide),
    infix_rejoined_iff (by decide) (by decide) hcomponents (by decide)]
  rfl

end WebServer
