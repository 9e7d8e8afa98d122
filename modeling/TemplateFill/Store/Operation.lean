import TemplateFill.Store.Marker

/-!
# Operations on stores

The operations that a store offers, with their arguments, so that a sequence of them is a list.
An id that an operation returns is the one of the next free place, which is the size of the
store before.
-/

namespace TemplateFill

/-- An operation on a store. -/
inductive StoreOperation where
  | alloc (label : Label)
  | append (parent child : NodeId)
  | insertAfter (sibling id : NodeId)
  | setChildren (parent : NodeId) (children : List NodeId)
  | detach (id : NodeId)
  | duplicate (id : NodeId)
  | importFrom (source : NodeStore) (id : NodeId)
  | declare (ns qualifier : String)
  | replaceRange (pair : StorePair)

namespace StoreOperation

/-- What an operation makes of a store; there is nothing if it fails. -/
def apply (store : NodeStore) : StoreOperation → Option NodeStore
  | alloc label => some (store.alloc label).1
  | append parent child => some (store.append parent child)
  | insertAfter sibling id => some (store.insertAfter sibling id)
  | setChildren parent children => some (store.setChildren parent children)
  | detach id => some (store.detach id)
  | duplicate id => some (store.duplicate id).1
  | importFrom source id => some (store.importFrom source id).1
  | declare ns qualifier => some (store.declare ns qualifier)
  | replaceRange pair => (store.replaceRange pair).map Prod.fst

/-- The node whose children an operation changes. -/
def parent? (store : NodeStore) : StoreOperation → Option NodeId
  | append parent _ => some parent
  | insertAfter sibling _ => store.parent? sibling
  | setChildren parent _ => some parent
  | detach id => store.parent? id
  | replaceRange pair => some pair.parent
  | alloc _ | duplicate _ | importFrom _ _ | declare _ _ => none

end StoreOperation

end TemplateFill
