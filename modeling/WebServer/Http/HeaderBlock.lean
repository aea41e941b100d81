import WebServer.Http.Bytes

/-!
# Header blocks

Requests and responses begin with lines that each end in CRLF, and an empty line ends the block. The
lines of a `HeaderBlock` are not empty and contain no CR, so the blank line that ends the block is the
first one in it, whatever bytes follow.
-/

namespace WebServer

open Bytes Search

/-- A start line and the header lines after it, as they can be written before a blank line. -/
structure HeaderBlock where
  startLine : Bytes
  fieldLines : List Bytes
  startLine_ne_nil : startLine ≠ []
  fieldLines_ne_nil : ∀ line ∈ fieldLines, line ≠ []
  cr_notMem_startLine : cr ∉ startLine
  cr_notMem_fieldLines : ∀ line ∈ fieldLines, cr ∉ line

namespace HeaderBlock

/-- Lines as they are sent, each with its line end. -/
def writeLines (lines : List Bytes) : Bytes := lines.flatMap (· ++ crlf)

def toBytes (block : HeaderBlock) : Bytes :=
  writeLines (block.startLine :: block.fieldLines) ++ crlf

@[simp]
theorem writeLines_nil : writeLines [] = [] := rfl

@[simp]
theorem writeLines_cons (line : Bytes) (lines : List Bytes) :
    writeLines (line :: lines) = line ++ (crlf ++ writeLines lines) := by
  simp [writeLines]

theorem find_crlf_eq_none {line : Bytes} (h : cr ∉ line) : find crlf line = none :=
  find_eq_none_iff.mpr fun _ _ hp ↦ h (List.mem_of_mem_drop (hp.subset List.mem_cons_self))

/-- No line end starts in a line that contains none, also not with its own line end. -/
theorem not_crlf_prefix {line : Bytes} (hline : find crlf line = none) (text : Bytes) {j : ℕ}
    (hj : j < line.length) : ¬ crlf <+: (line ++ (crlf ++ text)).drop j := by
  intro hp
  rw [List.drop_append_of_le_length (Nat.le_of_lt hj), List.drop_eq_getElem_cons hj] at hp
  by_cases hlast : j + 1 = line.length
  · obtain ⟨rest, hrest⟩ := hp
    rw [List.drop_eq_nil_of_le (Nat.le_of_eq hlast.symm)] at hrest
    simp [crlf, cr, lf] at hrest
  · have htwo : crlf.length = 2 := rfl
    refine find_eq_none_iff.mp hline j (Nat.le_of_lt hj) ?_
    rw [List.drop_eq_getElem_cons hj]
    refine (List.isPrefix_append_of_length ?_).mp hp
    rw [List.length_cons, List.length_drop]
    omega

/-- The first line end of a text is the one of its first line. -/
theorem find_crlf_line {line : Bytes} (hline : find crlf line = none) (text : Bytes) :
    find crlf (line ++ (crlf ++ text)) = some line.length := by
  rw [find_append_of_forall_not_prefixed fun j hj ↦ not_crlf_prefix hline text hj,
    find_prefixed (List.prefix_append ..)]
  simp

/-- No blank line starts in a line or in its line end when another line follows. -/
theorem find_blankLine_line {line text : Bytes} (hline : find crlf line = none)
    (htext : ¬ crlf <+: text) :
    find blankLine (line ++ (crlf ++ text)) =
      (find blankLine text).map (· + (line.length + 2)) := by
  have hlength : (line ++ crlf).length = line.length + 2 := by simp [crlf]
  have hcrlf : crlf <+: blankLine := List.prefix_append crlf crlf
  rw [← List.append_assoc, find_append_of_forall_not_prefixed, hlength]
  intro j hj hp
  rw [hlength] at hj
  rw [List.append_assoc] at hp
  rcases Nat.lt_trichotomy j line.length with hlt | rfl | hgt
  · exact not_crlf_prefix hline text hlt (hcrlf.trans hp)
  · rw [List.drop_left] at hp
    exact htext ((List.prefix_append_right_inj crlf).mp hp)
  · obtain rfl : j = line.length + 1 := by omega
    rw [← List.drop_drop, List.drop_left] at hp
    obtain ⟨rest, hrest⟩ := hp
    simp [blankLine, crlf, cr, lf] at hrest

theorem not_crlf_prefix_line {line : Bytes} (hne : line ≠ []) (hline : find crlf line = none)
    (text : Bytes) : ¬ crlf <+: line ++ (crlf ++ text) :=
  not_crlf_prefix hline text (List.length_pos_iff.mpr hne)

theorem find_blankLine_writeLines {line : Bytes} {lines : List Bytes}
    (hne : ∀ l ∈ lines, l ≠ []) (hlines : ∀ l ∈ line :: lines, find crlf l = none)
    (text : Bytes) :
    find blankLine (writeLines (line :: lines) ++ crlf ++ text) =
      some ((writeLines (line :: lines)).length - 2) := by
  induction lines generalizing line with
  | nil =>
    have htext : writeLines [line] ++ crlf ++ text = line ++ (blankLine ++ text) := by
      simp [crlf, blankLine]
    have hcrlf : crlf <+: blankLine := List.prefix_append crlf crlf
    have hpass : ∀ j < line.length, ¬ blankLine <+: (line ++ (blankLine ++ text)).drop j :=
      fun j hj hp ↦ not_crlf_prefix (hlines line List.mem_cons_self) (crlf ++ text) hj
        (hcrlf.trans hp)
    rw [htext, find_append_of_forall_not_prefixed hpass, find_prefixed (List.prefix_append ..)]
    simp [crlf]
  | cons next lines ih =>
    obtain ⟨hline, hrest⟩ := List.forall_mem_cons.mp hlines
    have hnext : next ≠ [] := hne next List.mem_cons_self
    have hhead : ¬ crlf <+: writeLines (next :: lines) ++ crlf ++ text := by
      have htext : writeLines (next :: lines) ++ crlf ++ text =
          next ++ (crlf ++ (writeLines lines ++ (crlf ++ text))) := by
        simp [List.append_assoc]
      rw [htext]
      exact not_crlf_prefix_line hnext (hrest next List.mem_cons_self) _
    have htext : writeLines (line :: next :: lines) ++ crlf ++ text =
        line ++ (crlf ++ (writeLines (next :: lines) ++ crlf ++ text)) := by
      simp [List.append_assoc]
    rw [htext, find_blankLine_line hline hhead,
      ih (fun l hl ↦ hne l (List.mem_cons_of_mem _ hl)) hrest]
    simp only [Option.map_some, writeLines_cons, List.length_append, Option.some.injEq, crlf,
      List.length_cons, List.length_nil]
    omega

/-- Text without a line end behind lines that are not empty has no blank line. -/
theorem find_blankLine_unfinished {line last : Bytes} {lines : List Bytes}
    (hne : ∀ l ∈ lines, l ≠ []) (hlines : ∀ l ∈ line :: lines, find crlf l = none)
    (hlast : find crlf last = none) : find blankLine (writeLines (line :: lines) ++ last) = none := by
  have hnone : ∀ text : Bytes, find crlf text = none → find blankLine text = none := by
    intro text htext
    refine find_eq_none_iff.mpr fun j hj hp ↦ find_eq_none_iff.mp htext j hj ?_
    exact (List.prefix_append crlf crlf).trans hp
  have hnot : ∀ text : Bytes, find crlf text = none → ¬ crlf <+: text :=
    fun text htext ↦ find_eq_none_iff.mp htext 0 (Nat.zero_le _)
  induction lines generalizing line with
  | nil =>
    obtain ⟨hline, -⟩ := List.forall_mem_cons.mp hlines
    have htext : writeLines [line] ++ last = line ++ (crlf ++ last) := by
      simp
    rw [htext, find_blankLine_line hline (hnot last hlast), hnone last hlast]
    rfl
  | cons next lines ih =>
    obtain ⟨hline, hrest⟩ := List.forall_mem_cons.mp hlines
    have hhead : ¬ crlf <+: writeLines (next :: lines) ++ last := by
      rw [writeLines_cons, List.append_assoc, List.append_assoc]
      exact not_crlf_prefix_line (hne next List.mem_cons_self) (hrest next List.mem_cons_self) _
    have htext : writeLines (line :: next :: lines) ++ last =
        line ++ (crlf ++ (writeLines (next :: lines) ++ last)) := by
      simp [List.append_assoc]
    rw [htext, find_blankLine_line hline hhead,
      ih (fun l hl ↦ hne l (List.mem_cons_of_mem _ hl)) hrest]
    rfl

variable (block : HeaderBlock)

theorem length_toBytes :
    block.toBytes.length = (writeLines (block.startLine :: block.fieldLines)).length + 2 := by
  rw [toBytes, List.length_append]
  rfl

theorem four_le_length_toBytes : 4 ≤ block.toBytes.length := by
  rw [length_toBytes, writeLines_cons]
  simp only [List.length_append, crlf, List.length_cons, List.length_nil]
  omega

/-- The first blank line of a message is the one that ends its header block. -/
theorem find_blankLine (text : Bytes) :
    find blankLine (block.toBytes ++ text) = some (block.toBytes.length - 4) := by
  have hfind := find_blankLine_writeLines block.fieldLines_ne_nil
    (List.forall_mem_cons.mpr ⟨find_crlf_eq_none block.cr_notMem_startLine,
      fun line hmem ↦ find_crlf_eq_none (block.cr_notMem_fieldLines line hmem)⟩) text
  rw [toBytes, hfind, ← toBytes, length_toBytes]
  rfl

end HeaderBlock

end WebServer
