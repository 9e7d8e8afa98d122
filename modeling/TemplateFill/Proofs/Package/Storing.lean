import TemplateFill.Fill
import TemplateFill.Proofs.Bookmark.Storable
import TemplateFill.Proofs.Markup.Canonical
import TemplateFill.Proofs.Package.Growth

/-!
# Storing documents

What is stored last in a part is all that remains of several documents.  Where documents are read
back as they were written, storing and reading them again between substitutions makes no
difference.
-/

namespace TemplateFill

/-- The document with the values put into their bookmarks, one after the other. -/
def Bookmark.substituteAll (root : Node) (revised : Bool) (entries : List Entry) :
    Except Error Node :=
  entries.foldlM (fun root entry => substitute root revised entry.1 entry.2) root

namespace Package

variable {package : Package} {name : String} {index : Nat}

theorem built_of_document {root : Node} (holds : package.document name = .ok root) :
    Markup.Built [] root := by
  rcases exists_read_of_document holds with ⟨content, _, read⟩
  exact Markup.built_of_readBytes read

/-- A document that has been stored is read from its written form. -/
theorem document_setDocument (found : package.find? name = some index) (root : Node) :
    (package.setDocument name root).document name =
      (Markup.readText root.toDocument).mapError .markup := by
  rw [document, setDocument, get?_set found]
  simp only [Markup.readBytes_eq_readText]

theorem fillBookmarks_cons {main : String} {revised : Bool} {root filled : Node} {entry : Entry}
    (holds : package.document main = .ok root)
    (success : Bookmark.substitute root revised entry.1 entry.2 = .ok filled) (rest : List Entry) :
    package.fillBookmarks main revised (entry :: rest) =
      (package.setDocument main filled).fillBookmarks main revised rest := by
  rw [fillBookmarks, holds]
  simp only [bind, Except.bind, success]

/-- Where a document can be read back as it was stored, storing it after every substitution ends
like storing it after the last. -/
theorem fillBookmarks_eq {main : String} {root : Node} (holds : package.document main = .ok root)
    (storable : Storable root) (revised : Bool) (entries : List Entry) :
    package.fillBookmarks main revised entries =
      (Bookmark.substituteAll root revised entries).map fun filled =>
        if entries = [] then package else package.setDocument main filled := by
  induction entries generalizing package root with
  | nil => rfl
  | cons entry rest ih =>
      rcases exists_find?_of_document holds with ⟨index, found⟩
      cases success : Bookmark.substitute root revised entry.1 entry.2 with
      | error error =>
          rw [fillBookmarks, Bookmark.substituteAll, List.foldlM_cons, holds]
          simp only [bind, Except.bind, success]
          rfl
      | ok filled =>
          have next := storable.substitute success
          have stored : (package.setDocument main filled).document main = .ok filled := by
            rw [document_setDocument found, next.readable.readText_toDocument next.isElement]
            rfl
          rw [fillBookmarks_cons holds success, ih stored next]
          rw [Bookmark.substituteAll, Bookmark.substituteAll, List.foldlM_cons]
          simp only [bind, Except.bind, success]
          cases rest with
          | nil => rfl
          | cons => simp only [if_neg (List.cons_ne_nil _ _), setDocument, set_set found]

end Package

end TemplateFill
