import ObjectGraph.NameSet

/-!
# Label histories

The labels that an entity had at some moment beside the labels that it has now.
-/

set_option autoImplicit false

namespace ObjectGraph

/-- Labels then and now. -/
structure LabelHistory where
  previous : NameSet .label
  current : NameSet .label
deriving DecidableEq

namespace LabelHistory

def added (h : LabelHistory) : NameSet .label := h.current.difference h.previous

def removed (h : LabelHistory) : NameSet .label := h.previous.difference h.current

def isChanged (h : LabelHistory) : Bool := h.previous ≠ h.current

end LabelHistory

end ObjectGraph
