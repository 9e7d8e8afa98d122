import TemplateFill.Bookmark.Flat

/-!
# Regrouping

Flat content is put into paragraphs again.  Siblings fall into groups, and a group ends
with a block-level node; a group that ends with a paragraph mark becomes that paragraph,
all other groups stay as they are.
-/

namespace TemplateFill

/-- Cut a list behind every element that closes its group. -/
def groupsAfter {α : Type} (closes : α → Bool) : List α → List (List α)
  | [] => []
  | first :: rest =>
      if closes first then
        [first] :: groupsAfter closes rest
      else
        match groupsAfter closes rest with
        | [] => [[first]]
        | group :: groups => (first :: group) :: groups

/-- The groups of a list put together are the list. -/
theorem groupsAfter_flatten {α : Type} (closes : α → Bool) (values : List α) :
    (groupsAfter closes values).flatten = values := by
  induction values with
  | nil => rfl
  | cons first rest ih =>
      simp only [groupsAfter]
      split
      · simp [ih]
      · split <;> simp_all

/-- No group is empty. -/
theorem ne_nil_of_mem_groupsAfter {α : Type} {closes : α → Bool} {values group : List α}
    (member : group ∈ groupsAfter closes values) : group ≠ [] := by
  induction values generalizing group with
  | nil => simp [groupsAfter] at member
  | cons first rest ih =>
      simp only [groupsAfter] at member
      split at member
      · rcases List.mem_cons.1 member with rfl | member
        · simp
        · exact ih member
      · split at member
        · simp_all
        · rename_i inner others equal
          rcases List.mem_cons.1 member with rfl | member
          · simp
          · exact ih (equal ▸ List.mem_cons_of_mem _ member)

namespace Node

/-- Whether a node closes its group: paragraphs, tables, cell properties and chunks do, and
content controls that hold a paragraph. -/
def isBlockLevel (node : Node) : Bool :=
  match node.kind with
  | .paragraph => true
  | .table => true
  | .tableCellProps => true
  | .altChunk => true
  | .contentControl => node.descendants.any isParagraph
  | _ => false

/-- A sibling of the flat form with what it is regrouped to. -/
structure Member where
  source : Node
  regrouped : Node

/-- What becomes of a group: a paragraph mark at its end takes in the rest of the group,
behind the properties. -/
def closeGroup (group : List Member) : List Node :=
  match group.getLast?.map Member.source with
  | some (Node.element name attrs props) =>
      if name.kind = .paragraph then
        [.element name attrs (props ++ group.dropLast.map (·.regrouped))]
      else group.map (·.regrouped)
  | _ => group.map (·.regrouped)

/-- What becomes of siblings. -/
def closeGroups (members : List Member) : List Node :=
  (groupsAfter (·.source.isBlockLevel) members).flatMap closeGroup

mutual

/-- Put the flat content below a node into paragraphs. -/
def regroup : Node → Node
  | .element name attrs children => .element name attrs (closeGroups (membersOf children))
  | .text content => .text content
  | .comment content => .comment content

/-- Siblings with what each of them is regrouped to. -/
def membersOf : List Node → List Member
  | [] => []
  | node :: rest => ⟨node, regroup node⟩ :: membersOf rest

end

end Node

end TemplateFill
