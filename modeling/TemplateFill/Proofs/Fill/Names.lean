import TemplateFill.Proofs.Bookmark.Storable
import TemplateFill.Proofs.Fill.TextPass
import TemplateFill.Proofs.Package.EmbedRun

/-!
# Names in written documents

A new element is named with a qualifier that the root declares, or else with one that nothing may
declare.  Where all declarations are at the root, word-processing markup among them, the elements of
a document are read back after a substitution with the names that they have, and so are chunks.
-/

namespace TemplateFill.Fill

open Markup Node Package

/-- A document with all its declarations at the root, word-processing markup among them, as it is
read from a text with legal names. -/
structure ReadyForValues (text : List Char) (root : Node) : Prop where
  legal : LegalText text
  read : readText text = .ok root
  below : ∀ child ∈ root.children, EveryLabel (fun label => declarations label.attrs = []) child
  declares : DeclaresWord root.attrs
  only : OnlyDeclarations root.attrs
  free : root.PlaceholderFree

section Values

variable {text : List Char} {root filled : Node} {revised : Bool} {bookmark value : String}

/-- The names of all nodes after a substitution are those that the root gives them. -/
theorem ReadyForValues.writable (ready : ReadyForValues text root)
    (success : Bookmark.substitute root revised bookmark value = .ok filled) :
    Writable [] filled ∧ filled.isElement = true := by
  rcases writable_of_readText ready.legal ready.read with ⟨writable, element⟩
  have named := writable.named ready.below
  rcases Bookmark.exists_fills ready.free success with ⟨site, path, fills⟩
  have label := fills.label_eq ready.free
  have attrs : filled.attrs = root.attrs := congrArg Label.attrs label
  -- New elements are spelled by the root, which every other element inherits its scope from.
  have allows : AllowsNew (NamedIn (declarations root.attrs)) root.spell value := by
    cases root with
    | element name attrs children =>
        exact allowsNew_named ready.declares ready.only named.self value
    | text | comment => cases element
  constructor
  · apply writable_of_named
    rw [attrs]
    exact fills.everyLabel ready.free allows named
  · exact (congrArg (fun label : Label => label.name?.isSome) label).trans element

end Values

end TemplateFill.Fill
