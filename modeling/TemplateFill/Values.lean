import TemplateFill.Markup.Reader

/-!
# Bookmark values

Values come in a document of any shape: every element called `bookmark`, written without
qualifier, that has a name gives one value, its own text.  Of several values for one
bookmark the first counts.
-/

namespace TemplateFill

/-- A bookmark and its value. -/
abbrev Entry := String × String

/-- The entry that a node gives. -/
def Node.entry? (node : Node) : Option Entry :=
  if node.name?.any fun name => name.qualifier.isNone && name.localName == "bookmark" then
    (node.plainAttr? "name").map fun bookmark =>
      (bookmark, String.join (node.children.filterMap Node.text?))
  else none

/-- Entries without those that an earlier one, or one for the bookmarks `known`, makes void. -/
def firstEntries (known : List String) : List Entry → List Entry
  | [] => []
  | entry :: rest =>
      if known.contains entry.1 then firstEntries known rest
      else entry :: firstEntries (entry.1 :: known) rest

/-- The entries in a data document. -/
def Node.entries (root : Node) : List Entry :=
  firstEntries [] (root.selfAndDescendants.filterMap Node.entry?)

/-- Read the entries in the text of a data document. -/
def readEntries (text : String) : Except Markup.Fault (List Entry) :=
  (Markup.readText text.toList).map Node.entries

/-- The values for the bookmarks of a template, in the order of the data. -/
structure Values where
  entries : List Entry
  deriving DecidableEq, Repr

namespace Values

/-- The entries for bookmarks of the template. -/
def ofEntries (bookmarks : List String) (entries : List Entry) : Values :=
  ⟨entries.filter fun entry => bookmarks.contains entry.1⟩

/-- The values in the text of a data document. -/
def read (bookmarks : List String) (text : String) : Except Markup.Fault Values :=
  (readEntries text).map (ofEntries bookmarks)

/-- The value for a bookmark. -/
def get? (values : Values) (bookmark : String) : Option String :=
  values.entries.lookup bookmark

/-- The bookmarks that have a value. -/
def names (values : Values) : List String := values.entries.map (·.1)

/-- The number of values. -/
def size (values : Values) : Nat := values.entries.length

/-- Whether there is no value. -/
def isEmpty (values : Values) : Bool := values.entries.isEmpty

end Values

end TemplateFill
