import TemplateFill.Bookmark.Placeholder
import TemplateFill.Bookmark.Regroup
import TemplateFill.Store.Copy

/-!
# Passes between stores

The passes of a substitution read one store and build another.  New nodes are detached when
they are added, and get their parent when this has all its children.
-/

namespace TemplateFill

namespace Branch

/-- The kind of the node at the top. -/
def kind (branch : Branch) : Kind := branch.label.kind

/-- Whether the node at the top closes its group, as it does in a document tree. -/
def isBlockLevel (branch : Branch) : Bool :=
  match branch.kind with
  | .paragraph => true
  | .table => true
  | .tableCellProps => true
  | .altChunk => true
  | .contentControl => (outlineOfAll 1 branch.children).any fun inner => inner.2.kind == .paragraph
  | _ => false

end Branch

namespace NodeStore

/-- Add a node over nodes that are detached. -/
def addOver (store : NodeStore) (label : Label) (children : List NodeId) : NodeStore × NodeId :=
  let added := store.alloc label
  (added.1.setChildren added.2 children, added.2)

/-- Add a node around one that is detached. -/
def addAround (store : NodeStore) (label : Label) (child : NodeId) : NodeStore × NodeId :=
  let added := store.alloc label
  (added.1.append added.2 child, added.2)

/-- Add branches side by side. -/
def graftAll (store : NodeStore) : List Branch → NodeStore × List NodeId
  | [] => (store, [])
  | branch :: rest =>
      let first := store.graft branch
      let others := first.1.graftAll rest
      (others.1, first.2 :: others.2)

/-- Make the node that a pass has built for the root the root. -/
def rooted (built : NodeStore × NodeId) : NodeStore := built.1.setRoot built.2

/-! ## The flat form -/

mutual

/-- Add what stands for a branch in the flat form. -/
def addFlat (store : NodeStore) : Branch → NodeStore × List NodeId
  | .mk label children =>
      match label.kind with
      | .paragraph =>
          let content := store.addContent children
          let mark := content.1.addOver label content.2.2
          (mark.1, content.2.1 ++ [mark.2])
      | .charData =>
          let copy := store.graft (.mk label children)
          (copy.1, [copy.2])
      | _ =>
          let below := store.addFlatAll children
          let copy := below.1.addOver label below.2
          (copy.1, [copy.2])

/-- Add what stands for branches side by side. -/
def addFlatAll (store : NodeStore) : List Branch → NodeStore × List NodeId
  | [] => (store, [])
  | branch :: rest =>
      let first := store.addFlat branch
      let others := first.1.addFlatAll rest
      (others.1, first.2 ++ others.2)

/-- Add what stands for the content of a paragraph and, apart from it, its properties. -/
def addContent (store : NodeStore) : List Branch → NodeStore × List NodeId × List NodeId
  | [] => (store, [], [])
  | branch :: rest =>
      if branch.kind = .paragraphProps then
        let props := store.graft branch
        let others := props.1.addContent rest
        (others.1, others.2.1, props.2 :: others.2.2)
      else
        let first := store.addFlat branch
        let others := first.1.addContent rest
        (others.1, first.2 ++ others.2.1, others.2.2)

end

/-- The flat form of the document in a store.  The root stays, even if it is a paragraph. -/
def flatten (source : NodeStore) : NodeStore :=
  let root := source.branch source.root
  let below := empty.addFlatAll root.children
  rooted (below.1.addOver root.label below.2)

/-! ## Regrouping -/

/-- A sibling of the flat form with how to add what it is regrouped to. -/
structure Rebuild where
  source : Branch
  add : NodeStore → NodeStore × NodeId

/-- Add siblings, one after the other. -/
def addEach (store : NodeStore) : List Rebuild → NodeStore × List NodeId
  | [] => (store, [])
  | rebuild :: rest =>
      let first := rebuild.add store
      let others := first.1.addEach rest
      (others.1, first.2 :: others.2)

/-- Add what becomes of a group: a paragraph mark at its end takes in the rest of the group,
behind the properties. -/
def addGroup (store : NodeStore) (group : List Rebuild) : NodeStore × List NodeId :=
  match group.getLast?.map Rebuild.source with
  | some (.mk label props) =>
      if label.kind = .paragraph then
        let paragraph := store.alloc label
        let copies := paragraph.1.graftAll props
        let members := copies.1.addEach group.dropLast
        (members.1.setChildren paragraph.2 (copies.2 ++ members.2), [paragraph.2])
      else store.addEach group
  | none => (store, [])

/-- Add what becomes of groups. -/
def addGroups (store : NodeStore) : List (List Rebuild) → NodeStore × List NodeId
  | [] => (store, [])
  | group :: rest =>
      let first := store.addGroup group
      let others := first.1.addGroups rest
      (others.1, first.2 ++ others.2)

/-- Add what becomes of siblings, in groups if a paragraph mark is among them. -/
def addSiblings (store : NodeStore) (siblings : List Rebuild) : NodeStore × List NodeId :=
  if siblings.any (·.source.kind == .paragraph) then
    store.addGroups (groupsAfter (·.source.isBlockLevel) siblings)
  else store.addEach siblings

mutual

/-- Add a branch with the flat content below it put into paragraphs. -/
def addRegrouped (store : NodeStore) : Branch → NodeStore × NodeId
  | .mk label children =>
      if label.kind = .charData then store.graft (.mk label children)
      else
        let below := store.addSiblings (rebuildsOf children)
        below.1.addOver label below.2

/-- Siblings with how to add what each of them is regrouped to. -/
def rebuildsOf : List Branch → List Rebuild
  | [] => []
  | branch :: rest => ⟨branch, fun store => store.addRegrouped branch⟩ :: rebuildsOf rest

end

/-- The document in a store with its flat content put into paragraphs. -/
def regroup (source : NodeStore) : NodeStore :=
  rooted (empty.addRegrouped (source.branch source.root))

/-! ## Placeholders -/

mutual

/-- Add a branch with the placeholders in it resolved, below a parent of kind `outer`. -/
def addResolved (store : NodeStore) (spell : Term → QName) (text : String) (outer : Kind) :
    Branch → NodeStore × NodeId
  | .mk label children =>
      match label.kind with
      | .charData => store.graft (.mk label children)
      | .placeholder =>
          let run := store.graft (.mk (.element (spell Term.run) [])
            (children ++ [Branch.ofNode (Node.runTextElement spell text)]))
          if outer.holdsParagraphs then
            run.1.addAround (.element (spell Term.paragraph) []) run.2
          else run
      | kind =>
          let copy := store.alloc label
          let below := copy.1.addResolvedAll spell text kind children
          (below.1.setChildren copy.2 below.2, copy.2)

/-- Add branches side by side with the placeholders in them resolved. -/
def addResolvedAll (store : NodeStore) (spell : Term → QName) (text : String) (outer : Kind) :
    List Branch → NodeStore × List NodeId
  | [] => (store, [])
  | branch :: rest =>
      let first := store.addResolved spell text outer branch
      let others := first.1.addResolvedAll spell text outer rest
      (others.1, first.2 :: others.2)

end

/-- The document in a store with runs of `text` in the place of all placeholders. -/
def resolvePlaceholders (source : NodeStore) (text : String) : NodeStore :=
  rooted (empty.addResolved source.spell text .generic (source.branch source.root))

/-! ## Runs in the body -/

mutual

/-- Add a branch in which runs that are children of the body have paragraphs of their own. -/
def addWrapped (store : NodeStore) (spell : Term → QName) : Branch → NodeStore × NodeId
  | .mk label children =>
      if label.kind = .charData then store.graft (.mk label children)
      else
        let copy := store.alloc label
        let below := copy.1.addWrappedAll spell label.kind children
        (below.1.setChildren copy.2 below.2, copy.2)

/-- The same for branches side by side below a parent of kind `outer`. -/
def addWrappedAll (store : NodeStore) (spell : Term → QName) (outer : Kind) :
    List Branch → NodeStore × List NodeId
  | [] => (store, [])
  | branch :: rest =>
      let inner := store.addWrapped spell branch
      let first :=
        if outer = .body ∧ branch.kind = .run then
          inner.1.addAround (.element (spell Term.paragraph) []) inner.2
        else inner
      let others := first.1.addWrappedAll spell outer rest
      (others.1, first.2 :: others.2)

end

/-- The document in a store with a paragraph of its own for every run that is a child of the
body. -/
def wrapBodyRuns (source : NodeStore) : NodeStore :=
  rooted (empty.addWrapped source.spell (source.branch source.root))

end NodeStore

end TemplateFill
