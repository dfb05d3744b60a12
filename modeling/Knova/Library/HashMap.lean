import Mathlib.Algebra.Order.Ring.Int
import Mathlib.Data.Finmap

/-!
# Hash maps

`std::collections::HashMap` is modelled by Mathlib's association lists with distinct keys;
this file adds the operation Mathlib lacks.
-/

namespace Knova.Library

/-- A finite map; nothing depends on the order of its entries. -/
abbrev HashMap (K V : Type) := AList (fun _ : K => V)

namespace HashMap

variable {K V : Type}

/-- `HashMap::retain`: keeps the entries that satisfy `p`. -/
def retain (p : K → V → Bool) (m : HashMap K V) : HashMap K V where
  entries := m.entries.filter (fun e => p e.1 e.2)
  nodupKeys := m.nodupKeys.sublist List.filter_sublist

lemma lookup_retain [DecidableEq K] (p : K → V → Bool) (m : HashMap K V) (k : K) :
    (m.retain p).lookup k = (m.lookup k).filter (p k) := by
  ext v
  rw [Option.filter_eq_some_iff, ← Option.mem_def, ← Option.mem_def, AList.mem_lookup_iff,
    AList.mem_lookup_iff]
  simp [retain]

end HashMap

end Knova.Library
