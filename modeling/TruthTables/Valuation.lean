/-! # Truth values for names -/
namespace TruthTables

/-- Truth values for some names, the latest binding first. -/
structure Valuation where
  bindings : List (String × Bool)
  deriving DecidableEq

namespace Valuation

def empty : Valuation := ⟨[]⟩

/-- The bindings in the order in which they are made. A later one takes the place of an earlier one. -/
def ofList (bindings : List (String × Bool)) : Valuation := ⟨bindings.reverse⟩

/-- A name without a binding is false. -/
def value (ν : Valuation) (name : String) : Bool := (ν.bindings.lookup name).getD false

theorem value_ofList_append (bindings : List (String × Bool)) (name other : String) (b : Bool) :
    (ofList (bindings ++ [(name, b)])).value other =
      if other = name then b else (ofList bindings).value other := by
  simp only [ofList, value, List.reverse_append, List.reverse_singleton, List.singleton_append,
    List.lookup_cons]
  by_cases h : other = name
  · simp [h]
  · simp [h, beq_false_of_ne h]

end Valuation

end TruthTables
