import WebServer.Http.RequestStability

/-!
# Requests in a stream

The requests of a connection are the messages of a framer: the parser finds them, and one that is not
keep-alive ends the stream. Where the header blocks of a stream fit the limit of the parser, an error
does not depend on how much of the stream has arrived, because the parser refuses a buffer without a
blank line only when it is longer than any header block that fits.
-/

namespace WebServer

open Bytes Search

/-- The requests of a stream, up to the last one of the connection. -/
def requestFramer : Framer Byte HttpRequest ℕ where
  parse := HttpRequest.parse
  final request := !request.keepAlive
  consumed_pos h := by
    have := HttpRequest.parse_consumed_bounds h
    omega
  consumed_le h := (HttpRequest.parse_consumed_bounds h).2
  ok_append h suffix := HttpRequest.parse_append_of_ok h suffix

/-- No request of the stream has a header block, with its blank line, over the limit. -/
def HeadersFit (stream : Bytes) : Prop :=
  ∀ requests rest headerEnd, requestFramer.Reads stream requests rest →
    find blankLine rest = some headerEnd → headerEnd + 4 ≤ HttpRequest.maxHeaderTotal

theorem headersFit_of_length_le {stream : Bytes}
    (h : stream.length ≤ HttpRequest.maxHeaderTotal) : HeadersFit stream := by
  intro requests rest headerEnd hreads hend
  have hrest := hreads.length_le
  have hle := find_le hend
  have hfour : blankLine.length = 4 := rfl
  omega

/-- A buffer that reaches behind the first blank line of its text contains that blank line. -/
theorem exists_find_of_prefixed {pattern buffer text : Bytes} {i : ℕ} (hpre : buffer <+: text)
    (hfind : find pattern text = some i) (hlen : i + pattern.length ≤ buffer.length) :
    ∃ j, find pattern buffer = some j := by
  obtain ⟨suffix, rfl⟩ := hpre
  obtain ⟨-, hp, -⟩ := find_eq_some_iff.mp hfind
  cases hbuffer : find pattern buffer with
  | some j => exact ⟨j, rfl⟩
  | none =>
    exact absurd ((prefix_drop_append_iff hlen).mp hp)
      (find_eq_none_iff.mp hbuffer i (by omega))

theorem steady_of_headersFit {stream : Bytes} (hfits : HeadersFit stream) :
    requestFramer.Steady stream := by
  intro requests rest hreads buffer code hpre herror
  obtain ⟨suffix, rfl⟩ := id hpre
  cases hbuffer : find blankLine buffer with
  | some headerEnd => exact HttpRequest.parse_append_of_error hbuffer herror suffix
  | none =>
    obtain ⟨rfl, hlong⟩ := HttpRequest.parse_error_of_no_blankLine hbuffer herror
    have hrest : find blankLine (buffer ++ suffix) = none := by
      cases hend : find blankLine (buffer ++ suffix) with
      | none => rfl
      | some headerEnd =>
        have hfit := hfits requests _ headerEnd hreads hend
        obtain ⟨j, hj⟩ := exists_find_of_prefixed hpre hend (by
          have hfour : blankLine.length = 4 := rfl
          omega)
        exact absurd (hbuffer.symm.trans hj) (by simp)
    refine (HttpRequest.parse_eq_of_no_blankLine hrest).trans (if_pos ?_)
    rw [List.length_append]
    omega

end WebServer
