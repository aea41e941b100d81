import Mathlib.Data.List.Basic
import Mathlib.Data.List.Infix
import WebServer.Foundation.WhileLoop

/-!
# Reading messages from a stream that arrives in pieces

A framer looks at the unread part of a stream and says that a message is complete, that more input is
needed, or that the stream cannot be read. A complete message must not depend on what follows it.
`Framer.drain` reads a text as far as possible, and `Framer.Reads` relates a text to the messages read
from its front and the part behind them. What was read from a text is read from every longer text as
well, which is why a reader that keeps the unread part and starts again when more input arrives gets
the messages of the whole stream.
-/

namespace WebServer

/-- What a framer says about the front of a text. -/
inductive Verdict (μ ε : Type*) where
  | needMore
  | ok (message : μ) (consumed : ℕ)
  | error (error : ε)

/-- A parser for the first message of a text, and which messages end the stream. -/
structure Framer (α μ ε : Type*) where
  parse : List α → Verdict μ ε
  final : μ → Bool
  consumed_pos : ∀ {text message consumed}, parse text = .ok message consumed → 0 < consumed
  consumed_le : ∀ {text message consumed}, parse text = .ok message consumed →
    consumed ≤ text.length
  ok_append : ∀ {text message consumed}, parse text = .ok message consumed →
    ∀ suffix, parse (text ++ suffix) = .ok message consumed

namespace Framer

variable {α μ ε : Type*} (framer : Framer α μ ε)

/-- The messages of a text, and the error that ends it, if one does. -/
structure Reading (μ ε : Type*) where
  messages : List μ
  error : Option ε

/-- Read messages until the text is used up, refused or ended; the state holds the messages so far. -/
def drainLoop : WhileLoop (List μ × List α) (Reading μ ε) where
  body state :=
    match framer.parse state.2 with
    | .needMore => .exit ⟨state.1, none⟩
    | .error error => .exit ⟨state.1, some error⟩
    | .ok message consumed =>
      if framer.final message then .exit ⟨state.1 ++ [message], none⟩
      else .next (state.1 ++ [message], state.2.drop consumed)
  measure state := state.2.length
  decreases state state' h := by
    split at h
    · exact absurd h (by simp)
    · exact absurd h (by simp)
    · rename_i message consumed hparse
      split at h
      · exact absurd h (by simp)
      · obtain rfl := Turn.next.inj h
        have hpos := framer.consumed_pos hparse
        have hle := framer.consumed_le hparse
        rw [List.length_drop]
        omega

def drain (text : List α) : Reading μ ε := framer.drainLoop.run ([], text)

section Turns

variable {framer} {read : List μ} {text : List α}

theorem drainLoop_of_needMore (hparse : framer.parse text = .needMore) :
    framer.drainLoop.run (read, text) = ⟨read, none⟩ := by
  refine framer.drainLoop.run_of_exit ?_
  simp only [drainLoop, hparse]

theorem drainLoop_of_error {error : ε} (hparse : framer.parse text = .error error) :
    framer.drainLoop.run (read, text) = ⟨read, some error⟩ := by
  refine framer.drainLoop.run_of_exit ?_
  simp only [drainLoop, hparse]

theorem drainLoop_of_final {message : μ} {consumed : ℕ}
    (hparse : framer.parse text = .ok message consumed) (hfinal : framer.final message = true) :
    framer.drainLoop.run (read, text) = ⟨read ++ [message], none⟩ := by
  refine framer.drainLoop.run_of_exit ?_
  simp only [drainLoop, hparse, if_pos hfinal]

theorem drainLoop_of_ok {message : μ} {consumed : ℕ}
    (hparse : framer.parse text = .ok message consumed) (hfinal : framer.final message = false) :
    framer.drainLoop.run (read, text) =
      framer.drainLoop.run (read ++ [message], text.drop consumed) := by
  refine framer.drainLoop.run_of_next ?_
  simp only [drainLoop, hparse, hfinal]
  rfl

end Turns

/-- The given messages were read from the front of a text, none of them final, and left the rest. -/
inductive Reads : List α → List μ → List α → Prop where
  | refl (text : List α) : Reads text [] text
  | snoc {text rest : List α} {messages : List μ} {message : μ} {consumed : ℕ}
      (hreads : Reads text messages rest) (hparse : framer.parse rest = .ok message consumed)
      (hfinal : framer.final message = false) :
      Reads text (messages ++ [message]) (rest.drop consumed)

variable {framer} {text rest suffix : List α} {messages : List μ}

/-- What was read from a text is read from every longer text. -/
theorem Reads.append (h : framer.Reads text messages rest) (suffix : List α) :
    framer.Reads (text ++ suffix) messages (rest ++ suffix) := by
  induction h with
  | refl => exact .refl _
  | snoc _ hparse hfinal ih =>
    have hnext := ih.snoc (framer.ok_append hparse suffix) hfinal
    rwa [List.drop_append_of_le_length (framer.consumed_le hparse)] at hnext

theorem Reads.trans {mid : List α} {messages' : List μ} (h : framer.Reads text messages mid)
    (h' : framer.Reads mid messages' rest) : framer.Reads text (messages ++ messages') rest := by
  induction h' with
  | refl => rwa [List.append_nil]
  | snoc _ hparse hfinal ih =>
    rw [← List.append_assoc]
    exact ih.snoc hparse hfinal

theorem Reads.cons {message : μ} {consumed : ℕ} (hparse : framer.parse text = .ok message consumed)
    (hfinal : framer.final message = false)
    (h : framer.Reads (text.drop consumed) messages rest) :
    framer.Reads text (message :: messages) rest :=
  ((Reads.refl text).snoc hparse hfinal).trans h

theorem Reads.length_le (h : framer.Reads text messages rest) : rest.length ≤ text.length := by
  induction h with
  | refl => exact le_rfl
  | snoc _ _ _ ih =>
    rw [List.length_drop]
    omega

theorem Reads.final_eq_false (h : framer.Reads text messages rest) :
    ∀ message ∈ messages, framer.final message = false := by
  induction h with
  | refl => simp
  | snoc _ _ hfinal ih =>
    intro message hmem
    rcases List.mem_append.mp hmem with hold | hnew
    · exact ih message hold
    · exact List.mem_singleton.mp hnew ▸ hfinal

/-- Draining a text passes through everything that can be read from its front. -/
theorem Reads.drainLoop_run (h : framer.Reads text messages rest) :
    framer.drain text = framer.drainLoop.run (messages, rest) := by
  induction h with
  | refl => rfl
  | snoc _ hparse hfinal ih => rw [ih, drainLoop_of_ok hparse hfinal]

theorem Reads.drain_of_needMore (h : framer.Reads text messages rest)
    (hparse : framer.parse rest = .needMore) : framer.drain text = ⟨messages, none⟩ := by
  rw [h.drainLoop_run, drainLoop_of_needMore hparse]

theorem Reads.drain_of_error (h : framer.Reads text messages rest) {error : ε}
    (hparse : framer.parse rest = .error error) : framer.drain text = ⟨messages, some error⟩ := by
  rw [h.drainLoop_run, drainLoop_of_error hparse]

theorem Reads.drain_of_final (h : framer.Reads text messages rest) {message : μ} {consumed : ℕ}
    (hparse : framer.parse rest = .ok message consumed) (hfinal : framer.final message = true) :
    framer.drain text = ⟨messages ++ [message], none⟩ := by
  rw [h.drainLoop_run, drainLoop_of_final hparse hfinal]

/-- The drained messages begin with the ones already read. -/
theorem drainLoop_messages (read : List μ) (text : List α) :
    (framer.drainLoop.run (read, text)).messages = read ++ (framer.drain text).messages := by
  induction hlen : text.length using Nat.strong_induction_on generalizing read text with
  | _ n ih =>
    cases hparse : framer.parse text with
    | needMore => rw [drain, drainLoop_of_needMore hparse, drainLoop_of_needMore hparse]; simp
    | error error => rw [drain, drainLoop_of_error hparse, drainLoop_of_error hparse]; simp
    | ok message consumed =>
      cases hfinal : framer.final message with
      | true =>
        rw [drain, drainLoop_of_final hparse hfinal, drainLoop_of_final hparse hfinal]
        rfl
      | false =>
        have hpos := framer.consumed_pos hparse
        have hle := framer.consumed_le hparse
        have hlt : (text.drop consumed).length < n := by
          rw [List.length_drop]
          omega
        rw [drain, drainLoop_of_ok hparse hfinal, drainLoop_of_ok hparse hfinal,
          ih _ hlt (read ++ [message]) _ rfl, ih _ hlt ([] ++ [message]) _ rfl]
        simp [List.append_assoc]

theorem Reads.drain_messages (h : framer.Reads text messages rest) :
    (framer.drain text).messages = messages ++ (framer.drain rest).messages := by
  rw [h.drainLoop_run, drainLoop_messages]

/-- More text does not change the messages a shorter text has. -/
theorem drain_messages_prefix (text suffix : List α) :
    (framer.drain text).messages <+: (framer.drain (text ++ suffix)).messages := by
  induction hlen : text.length using Nat.strong_induction_on generalizing text with
  | _ n ih =>
    cases hparse : framer.parse text with
    | needMore =>
      rw [drain, drainLoop_of_needMore hparse]
      exact List.nil_prefix
    | error error =>
      rw [drain, drainLoop_of_error hparse]
      exact List.nil_prefix
    | ok message consumed =>
      have hlong := framer.ok_append hparse suffix
      cases hfinal : framer.final message with
      | true =>
        rw [drain, drain, drainLoop_of_final hparse hfinal, drainLoop_of_final hlong hfinal]
      | false =>
        have hpos := framer.consumed_pos hparse
        have hle := framer.consumed_le hparse
        have hlt : (text.drop consumed).length < n := by
          rw [List.length_drop]
          omega
        have hshort := (Reads.cons hparse hfinal (.refl _)).drain_messages
        have hall := (Reads.cons hlong hfinal (.refl _)).drain_messages
        rw [hshort, hall, List.drop_append_of_le_length hle]
        exact (List.prefix_append_right_inj _).mpr (ih _ hlt _ rfl)

/-! ## Errors -/

variable (framer)

/-- An error found at a message boundary, before the whole stream has arrived, is the error of the
whole stream. -/
def Steady (stream : List α) : Prop :=
  ∀ messages rest, framer.Reads stream messages rest → ∀ buffer error, buffer <+: rest →
    framer.parse buffer = .error error → framer.parse rest = .error error

variable {framer}

/-- A reader that meets an error early has read what there is to read. -/
theorem Steady.drain_of_error {stream : List α} (hsteady : framer.Steady (stream ++ suffix))
    (h : framer.Reads stream messages rest) {error : ε} (hparse : framer.parse rest = .error error) :
    framer.drain (stream ++ suffix) = ⟨messages, some error⟩ :=
  (h.append suffix).drain_of_error
    (hsteady _ _ (h.append suffix) rest error (List.prefix_append ..) hparse)

end Framer

end WebServer
