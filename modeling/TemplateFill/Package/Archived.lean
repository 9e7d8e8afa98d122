import TemplateFill.Archive.Reading
import TemplateFill.Package.Parts

/-!
# Packages in archives

A package is kept as an archive with an entry for each part.
-/

namespace TemplateFill.Package

/-- The package in an archive. -/
def ofBytes (bytes : Bytes) : Except Error Package :=
  match Archive.read bytes with
  | .ok entries => .ok ⟨entries.map fun entry => ⟨entry.name, entry.content⟩⟩
  | .error fault => .error (.archive fault)

/-- The archive of a package. -/
def toBytes (package : Package) : Bytes :=
  Archive.write (package.parts.map fun part => ⟨part.name, part.content⟩)

end TemplateFill.Package
