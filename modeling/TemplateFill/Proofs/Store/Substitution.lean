import TemplateFill.Bookmark.Substitute
import TemplateFill.Proofs.Store.Reading
import TemplateFill.Proofs.Store.Replaced
import TemplateFill.Store.Substitute

/-!
# Filling bookmarks in stores and in documents

A store is taken through all passes of a substitution as the document is that it represents: both
are refused for the same reason, or the last store represents the document that the last pass
gives.  What is proved of a substitution in document trees so holds of the one in stores.
-/

namespace TemplateFill

namespace NodeStore

variable {store source : NodeStore} {document : Node}

/-- Filling a bookmark in a store of a document agrees with filling it in the document. -/
theorem Represents.substitute_agrees (represents : source.Represents document) (revised : Bool)
    (name text : String) :
    Agrees Represents (source.substitute revised name text)
      (Bookmark.substitute document revised name text) := by
  rw [NodeStore.substitute, Bookmark.substitute, represents.validate_eq]
  cases Bookmark.validate document revised name with
  | error error => exact rfl
  | ok =>
      have flat := represents.flatten
      refine (flat.locate_agrees name).bind fun pair places pairAt => ?_
      rcases flat.replaceRange pairAt with ⟨replaced, placeholder, isReplaced, represents'⟩
      rw [isReplaced]
      exact (represents'.regroup.resolvePlaceholders text).wrapBodyRuns

/-- The document that a store represents is the one at its root. -/
theorem Represents.toNode_root (represents : store.Represents document) :
    store.toNode store.root = document := by
  rw [toNode, represents.branch_root, Branch.toNode_ofNode]

/-- The document at the root of the filled store, or else the error, is what filling the document
itself gives. -/
theorem toNode_substitute (represents : source.Represents document) (revised : Bool)
    (name text : String) :
    (source.substitute revised name text).map (fun filled => filled.toNode filled.root) =
      Bookmark.substitute document revised name text :=
  (represents.substitute_agrees revised name text).map_eq fun _ _ filled => filled.toNode_root

/-- Filling a bookmark in what is read from bytes gives a store of the document that it gives when
these are read into a tree, or the same error. -/
theorem substitute_readBytes_agrees (bytes : Bytes) (revised : Bool) (name text : String) :
    Agrees Represents
      (do
        let store ← (NodeStore.readBytes bytes).mapError Error.markup
        store.substitute revised name text)
      (do
        let document ← (Markup.readBytes bytes).mapError Error.markup
        Bookmark.substitute document revised name text) :=
  (readBytes_agrees bytes).mapError.bind fun _ _ represents =>
    represents.substitute_agrees revised name text

end NodeStore

end TemplateFill
