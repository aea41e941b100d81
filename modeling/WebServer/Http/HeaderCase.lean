import Mathlib.Data.List.Forall2
import WebServer.Foundation.Lines
import WebServer.Http.FramingHeaders
import WebServer.Http.RequestLimits

/-!
# Letter case of header names

The header map compares names byte by byte, so `parse` takes the body length, the transfer encoding and
the connection option only from lines whose name is written as in the source. Changing the letter case
of names can therefore hide or show any line of these three names, each independently of the others.
The answer does not depend on the letter case exactly when no such line says anything.
-/

namespace WebServer.HttpRequest

open Bytes Search HeaderBlock

/-! ## Buffers that differ in the letter case of names -/

def lowered (text : Bytes) : Bytes := text.map toLower

/-- Lines that are equal up to the letter case of the text in front of the colon. -/
inductive RecasedLine : Bytes → Bytes → Prop
  | intro {name name' : Bytes} (rest : Bytes) (hcolon : colon ∉ name)
      (hcase : lowered name' = lowered name) : RecasedLine (name ++ rest) (name' ++ rest)

/-- Buffers that are equal up to the letter case of names in header lines. The last line of a header
block that has not ended may be a part of a line. -/
inductive Recased : Bytes → Bytes → Prop
  | complete (head head' : RequestHead) (rest : Bytes) (hstart : head'.startLine = head.startLine)
      (hlines : List.Forall₂ RecasedLine head.fieldLines head'.fieldLines) :
      Recased (head.toBytes ++ rest) (head'.toBytes ++ rest)
  | unfinished {start : Bytes} {lines lines' : List Bytes} {last last' : Bytes}
      (hfind : ∀ line ∈ start :: lines, find crlf line = none) (hne : ∀ line ∈ lines, line ≠ [])
      (hend : find crlf last = none) (hlines : List.Forall₂ RecasedLine lines lines')
      (hlast : RecasedLine last last') :
      Recased (writeLines (start :: lines) ++ last) (writeLines (start :: lines') ++ last')
  | refl (raw : Bytes) : Recased raw raw

/-- The parts of an answer the server acts on are the same. -/
inductive SameOutcome : ParseOutcome → ParseOutcome → Prop
  | needMore : SameOutcome .needMore .needMore
  | error (code : ℕ) : SameOutcome (.error code) (.error code)
  | ok {request request' : HttpRequest} (consumed : ℕ) (hbody : request'.body = request.body)
      (hkeepAlive : request'.keepAlive = request.keepAlive) :
      SameOutcome (.ok request consumed) (.ok request' consumed)

theorem SameOutcome.refl (outcome : ParseOutcome) : SameOutcome outcome outcome := by
  cases outcome with
  | needMore => exact .needMore
  | error code => exact .error code
  | ok request consumed => exact .ok consumed rfl rfl

theorem SameOutcome.symm {first second : ParseOutcome} (h : SameOutcome first second) :
    SameOutcome second first := by
  cases h with
  | needMore => exact .needMore
  | error code => exact .error code
  | ok consumed hbody hkeepAlive => exact .ok consumed hbody.symm hkeepAlive.symm

theorem SameOutcome.trans {first second third : ParseOutcome} (h : SameOutcome first second)
    (h' : SameOutcome second third) : SameOutcome first third := by
  cases h with
  | needMore => exact h'
  | error code => exact h'
  | ok consumed hbody hkeepAlive =>
    cases h' with
    | ok _ hbody' hkeepAlive' => exact .ok consumed (hbody'.trans hbody) (hkeepAlive'.trans hkeepAlive)

/-! ## Letter case and the structure of a line -/

/-- Only letters have two cases. -/
theorem toLower_eq_iff {c d : Byte} (hd : d < 65) : toLower c = d ↔ c = d := by
  unfold toLower
  split
  · rename_i hletter
    simp only [UInt8.le_iff_toNat_le, UInt8.lt_iff_toNat_lt, ← UInt8.toNat_inj, UInt8.toNat_add] at *
    simp at *
    omega
  · exact Iff.rfl

theorem mem_lowered_iff {d : Byte} (hd : d < 65) {text : Bytes} : d ∈ lowered text ↔ d ∈ text := by
  simp [lowered, toLower_eq_iff hd]

theorem crlf_prefix_lowered_iff (text : Bytes) : crlf <+: lowered text ↔ crlf <+: text := by
  match text with
  | [] => rfl
  | [c] => simp [lowered, crlf]
  | c :: d :: text =>
    have hcr := toLower_eq_iff (c := c) (show cr < 65 by decide)
    have hlf := toLower_eq_iff (c := d) (show lf < 65 by decide)
    simp only [lowered, List.map_cons, crlf, List.cons_prefix_cons, List.nil_prefix, and_true]
    rw [eq_comm, hcr, eq_comm (a := lf), hlf, eq_comm, eq_comm (a := lf)]

theorem find_lowered_eq_none_iff (text : Bytes) :
    find crlf (lowered text) = none ↔ find crlf text = none := by
  rw [find_eq_none_iff, find_eq_none_iff]
  simp only [lowered, List.length_map, ← List.map_drop]
  exact forall₂_congr fun j _ ↦ not_congr (crlf_prefix_lowered_iff (text.drop j))

theorem lowered_append (first second : Bytes) :
    lowered (first ++ second) = lowered first ++ lowered second := List.map_append

theorem length_eq_of_lowered {first second : Bytes} (h : lowered first = lowered second) :
    first.length = second.length := by
  have hlength := congrArg List.length h
  rwa [lowered, lowered, List.length_map, List.length_map] at hlength

namespace RecasedLine

variable {line line' : Bytes}

theorem lowered_eq (h : RecasedLine line line') : lowered line' = lowered line := by
  obtain ⟨rest, -, hcase⟩ := h
  rw [lowered_append, lowered_append, hcase]

theorem symm (h : RecasedLine line line') : RecasedLine line' line := by
  obtain ⟨rest, hcolon, hcase⟩ := h
  refine .intro rest ?_ hcase.symm
  rw [← mem_lowered_iff (by decide), hcase, mem_lowered_iff (by decide)]
  exact hcolon

theorem length_eq (h : RecasedLine line line') : line'.length = line.length :=
  length_eq_of_lowered h.lowered_eq

theorem find_crlf (h : RecasedLine line line') (hfind : find crlf line = none) :
    find crlf line' = none := by
  rw [← find_lowered_eq_none_iff, h.lowered_eq, find_lowered_eq_none_iff]
  exact hfind

theorem ne_nil (h : RecasedLine line line') (hne : line ≠ []) : line' ≠ [] := by
  rw [← List.length_pos_iff] at hne ⊢
  exact h.length_eq ▸ hne

end RecasedLine

/-! ## Letter case and header fields -/

/-- Fields with the same value under names that differ in letter case at most. -/
def SameField (field field' : Bytes × Bytes) : Prop :=
  lowered field'.1 = lowered field.1 ∧ field'.2 = field.2

theorem headerField_append {name rest : Bytes} (hcolon : colon ∉ name) :
    headerField (name ++ rest) =
      match find [colon] rest with
      | none => none
      | some i =>
        if name ++ rest.take i = [] then none
        else some (name ++ rest.take i, trim (rest.drop (i + 1))) := by
  have hskip : find [colon] (name ++ rest) = (find [colon] rest).map (· + name.length) := by
    refine find_append_of_forall_not_prefixed fun j hj hp ↦ hcolon ?_
    rw [List.drop_append_of_le_length (Nat.le_of_lt hj), List.drop_eq_getElem_cons hj,
      List.cons_append, List.cons_prefix_cons] at hp
    exact hp.1 ▸ List.getElem_mem hj
  unfold headerField
  rw [hskip]
  cases find [colon] rest with
  | none => rfl
  | some i =>
    have htake : (name ++ rest).take (i + name.length) = name ++ rest.take i := by
      rw [Nat.add_comm, List.take_length_add_append]
    have hdrop : (name ++ rest).drop (i + name.length + 1) = rest.drop (i + 1) := by
      rw [Nat.add_right_comm, Nat.add_comm, List.drop_length_add_append]
    simp only [Option.map_some, htake, hdrop]

theorem RecasedLine.headerField {line line' : Bytes} (h : RecasedLine line line')
    {field : Bytes × Bytes} (hfield : HttpRequest.headerField line = some field) :
    ∃ field', HttpRequest.headerField line' = some field' ∧ SameField field field' := by
  have hsymm := h.symm
  obtain ⟨rest, hcolon, hcase⟩ := h
  rw [headerField_append hcolon] at hfield
  have hcolon' : colon ∉ _ := (mem_lowered_iff (by decide)).not.mp
    (hcase ▸ (mem_lowered_iff (by decide)).not.mpr hcolon)
  rw [headerField_append hcolon']
  cases hfind : find [colon] rest with
  | none =>
    rw [hfind] at hfield
    exact absurd hfield (by simp)
  | some i =>
    simp only [hfind] at hfield
    split at hfield
    · exact absurd hfield (by simp)
    · rename_i hne
      obtain rfl := Option.some.inj hfield
      have hne' : ¬ _ ++ rest.take i = [] := fun hnil ↦ hne (by
        have hlength := length_eq_of_lowered hcase
        rw [← List.length_eq_zero_iff, List.length_append, ← hlength, ← List.length_append, hnil]
        rfl)
      refine ⟨_, if_neg hne', ?_, rfl⟩
      rw [lowered_append, lowered_append, hcase]

theorem mapM_headerField_recased {lines lines' : List Bytes}
    (h : List.Forall₂ RecasedLine lines lines') {fields : List (Bytes × Bytes)}
    (hfields : lines.mapM headerField = some fields) :
    ∃ fields', lines'.mapM headerField = some fields' ∧ List.Forall₂ SameField fields fields' := by
  induction h generalizing fields with
  | nil => exact ⟨[], rfl, Option.some.inj hfields ▸ .nil⟩
  | cons hline _ ih =>
    rw [List.mapM_cons] at hfields
    simp only [Option.bind_eq_bind, Option.bind_eq_some_iff] at hfields
    obtain ⟨field, hfield, rest, hrest, hcons⟩ := hfields
    obtain ⟨field', hfield', hsame⟩ := hline.headerField hfield
    obtain ⟨rest', hrest', hsameRest⟩ := ih hrest
    refine ⟨field' :: rest', ?_, Option.some.inj hcons ▸ .cons hsame hsameRest⟩
    rw [List.mapM_cons, hfield', hrest']
    rfl

theorem exists_recasedLine {line : Bytes} {field field' : Bytes × Bytes}
    (hfield : headerField line = some field) (hsame : SameField field field') :
    ∃ line', RecasedLine line line' ∧ headerField line' = some field' := by
  obtain ⟨name', value'⟩ := field'
  unfold headerField at hfield
  split at hfield
  · exact absurd hfield (by simp)
  · rename_i i hfind
    dsimp only at hfield
    split at hfield
    · exact absurd hfield (by simp)
    · rename_i hne
      obtain rfl := Option.some.inj hfield
      obtain ⟨hcase, rfl⟩ : lowered name' = lowered (line.take i) ∧
        value' = trim (line.drop (i + 1)) := hsame
      obtain ⟨-, hcolon, -⟩ := find_eq_some_iff.mp hfind
      have hrecased : RecasedLine (line.take i ++ line.drop i) (name' ++ line.drop i) :=
        .intro _ (notMem_take_of_find_singleton hfind) hcase
      rw [List.take_append_drop] at hrecased
      refine ⟨name' ++ line.drop i, hrecased, ?_⟩
      have hcolon' : colon ∉ name' := (mem_lowered_iff (by decide)).not.mp
        (hcase ▸ (mem_lowered_iff (by decide)).not.mpr (notMem_take_of_find_singleton hfind))
      have hne' : name' ≠ [] := fun hnil ↦ hne
        (List.length_eq_zero_iff.mp (by rw [← length_eq_of_lowered hcase, hnil]; rfl))
      rw [headerField_append hcolon', find_prefixed hcolon]
      simp [hne']

theorem exists_recasedLines {lines : List Bytes} {fields fields' : List (Bytes × Bytes)}
    (hfields : lines.mapM headerField = some fields) (hsame : List.Forall₂ SameField fields fields') :
    ∃ lines', List.Forall₂ RecasedLine lines lines' ∧ lines'.mapM headerField = some fields' := by
  induction lines generalizing fields fields' with
  | nil =>
    obtain rfl := Option.some.inj hfields
    obtain rfl := List.forall₂_nil_left_iff.mp hsame
    exact ⟨[], .nil, rfl⟩
  | cons line lines ih =>
    rw [List.mapM_cons] at hfields
    simp only [Option.bind_eq_bind, Option.bind_eq_some_iff] at hfields
    obtain ⟨field, hfield, rest, hrest, hcons⟩ := hfields
    obtain rfl := Option.some.inj hcons
    obtain ⟨field', rest', hhead, htail, rfl⟩ := List.forall₂_cons_left_iff.mp hsame
    obtain ⟨line', hline, hfield'⟩ := exists_recasedLine hfield hhead
    obtain ⟨lines', hlines, hrest'⟩ := ih hrest htail
    refine ⟨line' :: lines', .cons hline hlines, ?_⟩
    rw [List.mapM_cons, hfield', hrest']
    rfl

/-- Every change of letter case in the fields of a head is one in the head. -/
theorem exists_recasedHead (head : RequestHead) {fields fields' : List (Bytes × Bytes)}
    (hfields : head.fieldLines.mapM headerField = some fields)
    (hsame : List.Forall₂ SameField fields fields') :
    ∃ head' : RequestHead, head'.startLine = head.startLine ∧
      List.Forall₂ RecasedLine head.fieldLines head'.fieldLines ∧
        head'.fieldLines.mapM headerField = some fields' := by
  obtain ⟨lines', hlines, hfields'⟩ := exists_recasedLines hfields hsame
  have hfind := Lines.forall₂_forall_right hlines (fun _ _ hline ↦ hline.find_crlf) head.find_fieldLines
  have hne := Lines.forall₂_forall_right hlines (fun _ _ hline ↦ hline.ne_nil) head.fieldLines_ne_nil
  exact ⟨⟨head.startLine, lines', head.find_startLine, hfind, hne⟩, rfl, hlines, hfields'⟩

/-! ## Fields that decide nothing -/

/-- Whether a field is read or not makes no difference for a request of the version. -/
structure Harmless (version : Bytes) (field : Bytes × Bytes) : Prop where
  contentLength : lowered field.1 = lit "content-length" → bodyLength field.2 = .ok 0
  transferEncoding : lowered field.1 = lit "transfer-encoding" →
    field.2 = [] ∨ field.2 = lit "identity"
  connection : lowered field.1 = lit "connection" →
    if version = lit "HTTP/1.1" then field.2 ≠ lit "close" else field.2 ≠ lit "keep-alive"

/-- The request line and the header lines are accepted only with fields that decide nothing. -/
def Indifferent (raw : Bytes) : Prop :=
  ∀ request, (requestLineOf raw).length ≤ maxRequestLine →
    parseRequestLine (requestLineOf raw) clear = some request →
    (∀ line ∈ headerLines raw, headerField line ≠ none) →
      ∀ field ∈ headerFields raw, Harmless request.version field

theorem Harmless.of_sameField {version : Bytes} {field field' : Bytes × Bytes}
    (hsame : SameField field field') (h : Harmless version field) : Harmless version field' := by
  obtain ⟨hcase, hvalue⟩ := hsame
  refine ⟨?_, ?_, ?_⟩
  · rw [hcase, hvalue]
    exact h.contentLength
  · rw [hcase, hvalue]
    exact h.transferEncoding
  · rw [hcase, hvalue]
    exact h.connection

variable {start : HttpRequest} {fields : List (Bytes × Bytes)}

/-- The header fields of the request leave the body empty and the connection to the version. -/
def Undecided (request : HttpRequest) : Prop :=
  announcedLength request = .ok 0 ∧
    decideKeepAlive request = decide (request.version = lit "HTTP/1.1")

theorem undecided_iff {request : HttpRequest} :
    Undecided request ↔
      bodyLength (request.getHeader (lit "Content-Length")) = .ok 0 ∧
        (request.getHeader (lit "Transfer-Encoding") = [] ∨
          request.getHeader (lit "Transfer-Encoding") = lit "identity") ∧
        if request.version = lit "HTTP/1.1" then request.getHeader (lit "Connection") ≠ lit "close"
        else request.getHeader (lit "Connection") ≠ lit "keep-alive" := by
  have hkeepAlive : decideKeepAlive request = decide (request.version = lit "HTTP/1.1") ↔
      if request.version = lit "HTTP/1.1" then request.getHeader (lit "Connection") ≠ lit "close"
      else request.getHeader (lit "Connection") ≠ lit "keep-alive" := by
    unfold decideKeepAlive
    dsimp only
    split
    · rename_i h11
      rw [decide_eq_true h11, decide_eq_true_iff]
    · rename_i h11
      rw [decide_eq_false h11, decide_eq_false_iff_not]
  unfold Undecided
  rw [hkeepAlive, announcedLength_ok_iff, and_assoc]

/-- Without a deciding field the request is undecided. -/
theorem undecided_of_harmless (hharmless : ∀ field ∈ fields, Harmless start.version field) :
    Undecided (start.withFields fields) := by
  refine undecided_iff.mpr ⟨?_, ?_, ?_⟩
  · rcases getHeader_withFields_cases start fields (lit "Content-Length") with hnil | hfield
    · rw [hnil]
      rfl
    · obtain ⟨field, hmem, hname, hvalue⟩ := hfield
      rw [hvalue]
      exact (hharmless field hmem).contentLength (by rw [hname]; decide)
  · rcases getHeader_withFields_cases start fields (lit "Transfer-Encoding") with hnil | hfield
    · exact .inl hnil
    · obtain ⟨field, hmem, hname, hvalue⟩ := hfield
      rw [hvalue]
      exact (hharmless field hmem).transferEncoding (by rw [hname]; decide)
  · rcases getHeader_withFields_cases start fields (lit "Connection") with hnil | hfield
    · rw [hnil]
      split <;> decide
    · obtain ⟨field, hmem, hname, hvalue⟩ := hfield
      rw [hvalue]
      exact (hharmless field hmem).connection (by rw [hname]; decide)

theorem readHead_of_fields {head : RequestHead} (hmax : head.startLine.length ≤ maxRequestLine)
    (hstart : parseRequestLine head.startLine clear = some start)
    (hfields : head.fieldLines.mapM headerField = some fields) :
    readHead head = .ok (start.withFields fields) := by
  unfold readHead withFields
  rw [if_neg (Nat.not_lt_of_le hmax), hstart, hfields, ← parseRequestLine_headers hstart]

/-- Compared with an undecided request of the same version, the answer is the same exactly for an
undecided request. -/
theorem sameOutcome_answerTo_iff {request request' : HttpRequest} (size : ℕ) (rest : Bytes)
    (hversion : request'.version = request.version) (hundecided : Undecided request) :
    SameOutcome (answerTo request size rest) (answerTo request' size rest) ↔
      Undecided request' := by
  obtain ⟨hannounced, hconnection⟩ := hundecided
  have hempty : ¬ rest.length < 0 := Nat.not_lt_zero _
  unfold Undecided
  rw [hversion, ← hconnection]
  constructor
  · intro h
    unfold answerTo at h
    simp only [hannounced, if_neg hempty] at h
    cases hannounced' : announcedLength request' with
    | error code =>
      simp only [hannounced'] at h
      exact absurd h (fun hsame ↦ by cases hsame)
    | ok bodyLen =>
      simp only [hannounced'] at h
      split at h
      · exact absurd h (fun hsame ↦ by cases hsame)
      · generalize hsize : size + 0 = first at h
        generalize hsize' : size + bodyLen = second at h
        cases h with
        | ok consumed hbody hkeepAlive =>
          obtain rfl : bodyLen = 0 := by omega
          exact ⟨rfl, hkeepAlive⟩
  · rintro ⟨hannounced', hkeepAlive⟩
    unfold answerTo
    simp only [hannounced, hannounced', if_neg hempty]
    exact .ok _ rfl hkeepAlive

theorem requestLineOf_toBytes (head : RequestHead) (rest : Bytes) :
    requestLineOf (head.toBytes ++ rest) = head.startLine := by
  unfold requestLineOf
  rw [head.find_crlf rest]
  dsimp only
  rw [RequestHead.toBytes_append, List.take_left]

theorem length_writeLines_recased {lines lines' : List Bytes}
    (h : List.Forall₂ RecasedLine lines lines') :
    (writeLines lines').length = (writeLines lines).length := by
  induction h with
  | nil => rfl
  | cons hline _ ih =>
    simp only [writeLines_cons, List.length_append, ih, hline.length_eq]

theorem length_toBytes_recased {head head' : RequestHead} (hstart : head'.startLine = head.startLine)
    (hlines : List.Forall₂ RecasedLine head.fieldLines head'.fieldLines) :
    head'.toBytes.length = head.toBytes.length := by
  rw [head.length_toBytes, head'.length_toBytes, hstart, length_writeLines_recased hlines]

/-! ## The answer does not depend on the letter case -/

theorem mapM_ne_none {lines : List Bytes} (h : ∀ line ∈ lines, headerField line ≠ none) :
    ∃ fields, lines.mapM headerField = some fields := by
  induction lines with
  | nil => exact ⟨[], rfl⟩
  | cons line lines ih =>
    obtain ⟨hline, hlines⟩ := List.forall_mem_cons.mp h
    obtain ⟨field, hfield⟩ := Option.ne_none_iff_exists'.mp hline
    obtain ⟨fields, hfields⟩ := ih hlines
    refine ⟨field :: fields, ?_⟩
    rw [List.mapM_cons, hfield, hfields]
    rfl

theorem forall_ne_none_of_mapM {lines : List Bytes} {fields : List (Bytes × Bytes)}
    (h : lines.mapM headerField = some fields) : ∀ line ∈ lines, headerField line ≠ none := by
  induction lines generalizing fields with
  | nil => simp
  | cons line lines ih =>
    rw [List.mapM_cons] at h
    simp only [Option.bind_eq_bind, Option.bind_eq_some_iff] at h
    obtain ⟨field, hfield, rest, hrest, -⟩ := h
    refine List.forall_mem_cons.mpr ⟨?_, ih hrest⟩
    simp [hfield]

/-- With an indifferent buffer, heads that differ in letter case get the same answer. -/
theorem sameOutcome_complete {head head' : RequestHead} {rest : Bytes}
    (hstart : head'.startLine = head.startLine)
    (hlines : List.Forall₂ RecasedLine head.fieldLines head'.fieldLines)
    (h : Indifferent (head.toBytes ++ rest)) :
    SameOutcome (parse (head.toBytes ++ rest)) (parse (head'.toBytes ++ rest)) := by
  unfold Indifferent at h
  rw [requestLineOf_toBytes, headerLines_toBytes] at h
  rw [parse_toBytes, parse_toBytes, length_toBytes_recased hstart hlines]
  by_cases hmax : maxRequestLine < head.startLine.length
  · unfold readHead
    rw [hstart, if_pos hmax, if_pos hmax]
    exact .error 431
  cases hrequest : parseRequestLine head.startLine clear with
  | none =>
    unfold readHead
    rw [hstart, if_neg hmax, if_neg hmax, hrequest]
    exact .error 400
  | some start =>
    cases hfields : head.fieldLines.mapM headerField with
    | none =>
      have hfields' : head'.fieldLines.mapM headerField = none := by
        rw [Option.eq_none_iff_forall_ne_some]
        intro fields' hsome
        obtain ⟨fields, hback, -⟩ := mapM_headerField_recased
          (hlines.flip.imp fun _ _ hline ↦ hline.symm) hsome
        exact absurd (hfields.symm.trans hback) (by simp)
      unfold readHead
      rw [hstart, if_neg hmax, if_neg hmax, hrequest, hfields, hfields']
      exact .error 400
    | some fields =>
      obtain ⟨fields', hfields', hsame⟩ := mapM_headerField_recased hlines hfields
      have hmax' := Nat.le_of_not_lt hmax
      have hharmless := h start hmax' hrequest (forall_ne_none_of_mapM hfields)
      rw [headerFields, headerLines_toBytes, filterMap_of_mapM hfields] at hharmless
      have hharmless' := Lines.forall₂_forall_right hsame
        (fun _ _ hfield ↦ Harmless.of_sameField hfield) hharmless
      have hundecided' : Undecided (start.withFields fields') := undecided_of_harmless hharmless'
      have hversion : (start.withFields fields').version = (start.withFields fields).version := rfl
      rw [readHead_of_fields hmax' hrequest hfields,
        readHead_of_fields (hstart ▸ hmax') (hstart ▸ hrequest) hfields']
      exact (sameOutcome_answerTo_iff _ rest hversion (undecided_of_harmless hharmless)).mpr
        hundecided'

theorem sameOutcome_of_indifferent {raw raw' : Bytes} (hrecased : Recased raw raw')
    (h : Indifferent raw) : SameOutcome (parse raw) (parse raw') := by
  cases hrecased with
  | complete head head' rest hstart hlines => exact sameOutcome_complete hstart hlines h
  | refl => exact .refl _
  | @unfinished start lines lines' last last' hfind hne hend hlines hlast =>
    obtain ⟨hfindStart, hfindLines⟩ := List.forall_mem_cons.mp hfind
    have hfind' := Lines.forall₂_forall_right hlines (fun _ _ hline ↦ hline.find_crlf) hfindLines
    have hne' := Lines.forall₂_forall_right hlines (fun _ _ hline ↦ hline.ne_nil) hne
    have hlength : (writeLines (start :: lines') ++ last').length =
        (writeLines (start :: lines) ++ last).length := by
      simp only [List.length_append, writeLines_cons, length_writeLines_recased hlines,
        hlast.length_eq]
    rw [parse_eq_of_no_blankLine (find_blankLine_unfinished hne hfind hend),
      parse_eq_of_no_blankLine (find_blankLine_unfinished hne'
        (List.forall_mem_cons.mpr ⟨hfindStart, hfind'⟩) (hlast.find_crlf hend)), hlength]
    exact .refl _

/-! ## A deciding field shows in some letter case -/

theorem toLower_toLower (c : Byte) : toLower (toLower c) = toLower c := by
  have hnot : ∀ d : Byte, 97 ≤ d → toLower d = d := by
    intro d hd
    unfold toLower
    rw [if_neg]
    simp only [UInt8.le_iff_toNat_le] at hd ⊢
    simp at hd ⊢
    omega
  by_cases hletter : 65 ≤ c ∧ c ≤ 90
  · have hlow : toLower c = c + 32 := if_pos hletter
    rw [hlow]
    refine hnot _ ?_
    simp only [UInt8.le_iff_toNat_le, UInt8.toNat_add] at *
    simp at *
    omega
  · have hsame : toLower c = c := if_neg hletter
    rw [hsame, hsame]

theorem lowered_lowered (text : Bytes) : lowered (lowered text) = lowered text := by
  simp only [lowered, List.map_map]
  exact List.map_congr_left fun c _ ↦ toLower_toLower c

def lowerName (field : Bytes × Bytes) : Bytes × Bytes := (lowered field.1, field.2)

theorem sameField_lowerName (field : Bytes × Bytes) : SameField field (lowerName field) :=
  ⟨lowered_lowered field.1, rfl⟩

theorem forall₂_lowerName (fields : List (Bytes × Bytes)) :
    List.Forall₂ SameField fields (fields.map lowerName) :=
  List.forall₂_map_right_iff.mpr (List.forall₂_same.mpr fun field _ ↦ sameField_lowerName field)

/-- A name with capital letters is not found among names without. -/
theorem valuesOf_lowerName {name : Bytes} (hname : lowered name ≠ name)
    (fields : List (Bytes × Bytes)) : valuesOf name (fields.map lowerName) = [] := by
  unfold valuesOf
  rw [List.map_eq_nil_iff, List.filter_eq_nil_iff]
  intro field hmem
  obtain ⟨source, -, rfl⟩ := List.mem_map.mp hmem
  refine fun heq ↦ hname ?_
  rw [← of_decide_eq_true heq]
  exact lowered_lowered source.1

/-- The fields with the given one spelled in a way of its own and all others in lower case. -/
def spelled (name : Bytes) (field : Bytes × Bytes) (before after : List (Bytes × Bytes)) :
    List (Bytes × Bytes) :=
  before.map lowerName ++ (name, field.2) :: after.map lowerName

theorem valuesOf_spelled {name name' : Bytes} (hname : lowered name' ≠ name')
    (field : Bytes × Bytes) (before after : List (Bytes × Bytes)) :
    valuesOf name' (spelled name field before after) =
      if name = name' then [field.2] else [] := by
  have happend : ∀ first second, valuesOf name' (first ++ second) =
      valuesOf name' first ++ valuesOf name' second := by
    intro first second
    simp [valuesOf]
  have hsplit : spelled name field before after =
      (before.map lowerName ++ [(name, field.2)]) ++ after.map lowerName := by
    simp [spelled]
  rw [hsplit, happend, valuesOf_concat, valuesOf_lowerName hname, valuesOf_lowerName hname]
  simp

theorem getHeader_spelled {name name' : Bytes} (hname : lowered name' ≠ name')
    (field : Bytes × Bytes) (before after : List (Bytes × Bytes)) :
    (start.withFields (spelled name field before after)).getHeader name' =
      if name = name' then field.2 else [] := by
  rw [getHeader_withFields, valuesOf_spelled hname]
  split <;> rfl

theorem forall₂_spelled {name : Bytes} {field : Bytes × Bytes} (hname : lowered name = lowered field.1)
    (before after : List (Bytes × Bytes)) :
    List.Forall₂ SameField (before ++ field :: after) (spelled name field before after) :=
  List.rel_append (forall₂_lowerName before) (.cons ⟨hname, rfl⟩ (forall₂_lowerName after))

/-- If no letter case changes the answer, then spelling one field in any way and all others in lower
case leaves an undecided request. -/
theorem undecided_spelled {head : RequestHead} {rest : Bytes}
    (hmax : head.startLine.length ≤ maxRequestLine)
    (hstart : parseRequestLine head.startLine clear = some start)
    (h : ∀ raw', Recased (head.toBytes ++ rest) raw' →
      SameOutcome (parse (head.toBytes ++ rest)) (parse raw'))
    {field : Bytes × Bytes} {before after : List (Bytes × Bytes)}
    (hfields : head.fieldLines.mapM headerField = some (before ++ field :: after))
    {name : Bytes} (hname : lowered name = lowered field.1) :
    Undecided (start.withFields (spelled name field before after)) := by
  have houtcome {fields' : List (Bytes × Bytes)}
      (hsame : List.Forall₂ SameField (before ++ field :: after) fields') :
      SameOutcome (parse (head.toBytes ++ rest))
        (answerTo (start.withFields fields') head.toBytes.length rest) := by
    obtain ⟨head', hstart', hlines, hfields'⟩ := exists_recasedHead head hfields hsame
    have hrecased := h _ (.complete head head' rest hstart' hlines)
    rw [parse_toBytes head', readHead_of_fields (hstart' ▸ hmax) (hstart' ▸ hstart) hfields',
      length_toBytes_recased hstart' hlines] at hrecased
    exact hrecased
  have hlow : Undecided (start.withFields ((before ++ field :: after).map lowerName)) := by
    have hnone {name' : Bytes} (hname' : lowered name' ≠ name') :
        (start.withFields ((before ++ field :: after).map lowerName)).getHeader name' = [] := by
      rw [getHeader_withFields, valuesOf_lowerName hname']
      rfl
    refine undecided_iff.mpr ⟨?_, ?_, ?_⟩
    · rw [hnone (by decide)]
      rfl
    · exact .inl (hnone (by decide))
    · rw [hnone (by decide)]
      split <;> decide
  have hversion : (start.withFields (spelled name field before after)).version =
      (start.withFields ((before ++ field :: after).map lowerName)).version := rfl
  refine (sameOutcome_answerTo_iff head.toBytes.length rest hversion hlow).mp ?_
  exact (houtcome (forall₂_lowerName _)).symm.trans (houtcome (forall₂_spelled hname before after))

theorem indifferent_of_sameOutcome {raw : Bytes}
    (h : ∀ raw', Recased raw raw' → SameOutcome (parse raw) (parse raw')) : Indifferent raw := by
  cases hend : find blankLine raw with
  | none =>
    intro request _ _ _ field hmem
    unfold headerFields headerLines at hmem
    rw [hend] at hmem
    exact absurd hmem List.not_mem_nil
  | some headerEnd =>
    obtain ⟨head, rest, rfl⟩ := RequestHead.exists_of_blankLine hend
    unfold Indifferent
    rw [requestLineOf_toBytes, headerFields, headerLines_toBytes]
    intro start hmax hstart hlines field hmem
    obtain ⟨fields, hfields⟩ := mapM_ne_none hlines
    rw [filterMap_of_mapM hfields] at hmem
    obtain ⟨before, after, rfl⟩ := List.append_of_mem hmem
    have hspelled (name : Bytes) (hname : lowered name = lowered field.1) :=
      undecided_iff.mp (undecided_spelled hmax hstart h hfields hname)
    have hlength : lowered (lit "Content-Length") = lit "content-length" := by decide
    have hencoding : lowered (lit "Transfer-Encoding") = lit "transfer-encoding" := by decide
    have hconnection : lowered (lit "Connection") = lit "connection" := by decide
    refine ⟨fun hname ↦ ?_, fun hname ↦ ?_, fun hname ↦ ?_⟩
    · obtain ⟨hdecided, -, -⟩ := hspelled _ (hlength.trans hname.symm)
      rwa [getHeader_spelled (by decide), if_pos rfl] at hdecided
    · obtain ⟨-, hdecided, -⟩ := hspelled _ (hencoding.trans hname.symm)
      rwa [getHeader_spelled (by decide), if_pos rfl] at hdecided
    · obtain ⟨-, -, hdecided⟩ := hspelled _ (hconnection.trans hname.symm)
      rwa [getHeader_spelled (by decide), if_pos rfl] at hdecided

/-- No change of letter case in header names changes the answer exactly for a buffer that is refused for
its request line or a header line, or in which no line that is named `Content-Length`,
`Transfer-Encoding` or `Connection` in any letter case decides anything. -/
theorem sameOutcome_iff_indifferent (raw : Bytes) :
    (∀ raw', Recased raw raw' → SameOutcome (parse raw) (parse raw')) ↔ Indifferent raw :=
  ⟨indifferent_of_sameOutcome, fun h _ hrecased ↦ sameOutcome_of_indifferent hrecased h⟩

def canonicalHead : RequestHead where
  startLine := lit "POST / HTTP/1.1"
  fieldLines := [lit "Content-Length" ++ lit ": 5"]
  find_startLine := by decide
  find_fieldLines := by decide
  fieldLines_ne_nil := by decide

def lowerCaseHead : RequestHead where
  startLine := lit "POST / HTTP/1.1"
  fieldLines := [lit "content-length" ++ lit ": 5"]
  find_startLine := by decide
  find_fieldLines := by decide
  fieldLines_ne_nil := by decide

def consumedOf : ParseOutcome → Option ℕ
  | .ok _ consumed => some consumed
  | _ => none

theorem SameOutcome.consumedOf_eq {first second : ParseOutcome} (h : SameOutcome first second) :
    consumedOf first = consumedOf second := by
  cases h <;> rfl

/-- Behind a length in lower case the body is left in the buffer, as the next request. -/
theorem lowerCase_contentLength_ignored :
    ¬ ∀ raw raw', Recased raw raw' → SameOutcome (parse raw) (parse raw') := by
  intro h
  have hline : RecasedLine (lit "Content-Length" ++ lit ": 5") (lit "content-length" ++ lit ": 5") :=
    .intro _ (by decide) (by decide)
  have hsame := h _ _ (.complete canonicalHead lowerCaseHead (lit "hello") rfl (.cons hline .nil))
  have hconsumed : consumedOf (parse (canonicalHead.toBytes ++ lit "hello")) = some 43 := by
    decide
  have hconsumed' : consumedOf (parse (lowerCaseHead.toBytes ++ lit "hello")) = some 38 := by
    decide
  rw [hsame.consumedOf_eq, hconsumed'] at hconsumed
  exact absurd hconsumed (by decide)

end WebServer.HttpRequest
