import Mathlib.Data.List.AList
import WebServer.Http.Bytes

/-!
# The key-value store

The singleton behind the `/kv` routes. An `std::unordered_map` is an association list without
duplicate keys; the order of its entries stands for the unspecified iteration order.
-/

namespace WebServer

open Bytes

structure KVStore where
  data : AList fun _ : Bytes ↦ Bytes

namespace KVStore

def get (store : KVStore) (key : Bytes) : Option Bytes := store.data.lookup key

def put (store : KVStore) (key value : Bytes) : KVStore := ⟨store.data.insert key value⟩

/-- The flag is the result of the source's `del`: whether an entry was erased. -/
def del (store : KVStore) (key : Bytes) : Bool × KVStore :=
  ((store.data.lookup key).isSome, ⟨store.data.erase key⟩)

/-- One line "key=value" for each entry. -/
def dump (store : KVStore) : Bytes :=
  store.data.entries.flatMap fun entry ↦ entry.1 ++ lit "=" ++ entry.2 ++ lit "\n"

end KVStore

end WebServer
