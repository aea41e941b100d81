import Mathlib.Data.List.Basic
import Mathlib.Logic.Function.Basic

/-!
# A map that serves several clients

The reference for a store: a function from keys to optional values, the calls on it, and the replies
to a list of calls that are executed one after the other. Each call carries the client that made it,
so the part of a client in the calls and in the replies can be compared with what the client sent and
received.
-/

namespace WebServer

inductive MapCall (κ ν : Type*) where
  | put (key : κ) (value : ν)
  | get (key : κ)
  | delete (key : κ)

inductive MapReply (ν : Type*) where
  | stored
  | found (value : ν)
  | deleted
  | missing

/-- What belongs to one client. -/
def partOf {ι α : Type*} [DecidableEq ι] (client : ι) (entries : List (ι × α)) : List α :=
  (entries.filter fun entry ↦ entry.1 = client).map Prod.snd

section Parts

variable {ι α : Type*} [DecidableEq ι] {client other : ι}

theorem partOf_append (first second : List (ι × α)) :
    partOf client (first ++ second) = partOf client first ++ partOf client second := by
  simp [partOf]

@[simp]
theorem partOf_singleton_self (a : α) : partOf client [(client, a)] = [a] := by
  simp [partOf]

theorem partOf_singleton_of_ne (h : other ≠ client) (a : α) : partOf client [(other, a)] = [] := by
  simp [partOf, h]

end Parts

namespace MapCall

variable {ι κ ν : Type*} [DecidableEq κ]

def key : MapCall κ ν → κ
  | put key _ | get key | delete key => key

/-- The map after a call. -/
def apply (map : κ → Option ν) : MapCall κ ν → κ → Option ν
  | put key value => Function.update map key (some value)
  | get _ => map
  | delete key => Function.update map key none

/-- The reply to a call. -/
def reply (map : κ → Option ν) : MapCall κ ν → MapReply ν
  | put _ _ => .stored
  | get key =>
    match map key with
    | some value => .found value
    | none => .missing
  | delete key => if (map key).isSome then .deleted else .missing

/-- The map after calls in the given order. -/
def after (map : κ → Option ν) (calls : List (ι × MapCall κ ν)) : κ → Option ν :=
  calls.foldl (fun map call ↦ call.2.apply map) map

/-- The replies to calls in the given order, each for the client of its call. -/
def replies (map : κ → Option ν) : List (ι × MapCall κ ν) → List (ι × MapReply ν)
  | [] => []
  | call :: calls => (call.1, call.2.reply map) :: replies (call.2.apply map) calls

variable (map : κ → Option ν)

theorem after_concat (calls : List (ι × MapCall κ ν)) (call : ι × MapCall κ ν) :
    after map (calls ++ [call]) = call.2.apply (after map calls) := by
  simp [after]

theorem replies_concat (calls : List (ι × MapCall κ ν)) (call : ι × MapCall κ ν) :
    replies map (calls ++ [call]) =
      replies map calls ++ [(call.1, call.2.reply (after map calls))] := by
  induction calls generalizing map with
  | nil => rfl
  | cons first calls ih =>
    rw [List.cons_append, replies, ih]
    rfl

end MapCall

end WebServer
