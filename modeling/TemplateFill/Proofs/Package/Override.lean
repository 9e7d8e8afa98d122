import TemplateFill.Proofs.Package.Entries

/-!
# Overrides that count

A list of content types is asked by local names and changed by full names.  Where both mean the
same elements, the override that was set last is the only answer for its part; an override of
another namespace stays in front of it and is what is found.
-/

namespace TemplateFill.ContentTypes

open Markup Text

/-- Overrides of a part count: the part has the type that is set, by whatever spelling it is asked
for, other parts have theirs, and the type that is set last is the only answer. -/
structure OverrideCounts (types : Node) (part : String) : Prop where
  own : ∀ type name, sameButCase (PartName.bare part) (PartName.bare name) = true →
    type? (setOverride types part type) name = some type
  others : ∀ type name, sameButCase (PartName.bare part) (PartName.bare name) = false →
    type? (setOverride types part type) name = type? types name
  single : ∀ first type again name,
    sameButCase (PartName.bare part) (PartName.bare again) = true →
    sameButCase (PartName.bare part) (PartName.bare name) = true →
    overrideTypes (setOverride (setOverride types part first) again type) name = [type]

variable {types : Node} {part : String}

/-- Of two overrides for a part the later one is left, behind those of other namespaces. -/
theorem overrideTypes_setOverride_again (element : types.isElement = true) {again name : String}
    (same : sameButCase (PartName.bare part) (PartName.bare again) = true)
    (same' : sameButCase (PartName.bare part) (PartName.bare name) = true) (first type : String) :
    overrideTypes (setOverride (setOverride types part first) again type) name =
      strayTypes types part ++ [type] := by
  have element' : (setOverride types part first).isElement = true := by
    cases types with
    | element => rfl
    | text | comment => cases element
  have one : sameButCase (PartName.bare again) (PartName.bare name) = true := by
    rw [sameButCase_comm] at same
    exact sameButCase_trans same same'
  rw [overrideTypes_setOverride element', if_pos one, strayTypes_setOverride element,
    strayTypes_congr same]

/-- Overrides of a part count exactly if no override of another namespace gives it a type; else
the first of these is what is found. -/
theorem overrideCounts_iff {text : List Char} (read : readText text = .ok types) (part : String) :
    (OverrideCounts types part ↔ strayTypes types part = []) ∧
      ∀ type name, type? (setOverride types part type) name =
        if sameButCase (PartName.bare part) (PartName.bare name) then
          some ((strayTypes types part).headD type)
        else type? types name := by
  have element := isElement_of_readText read
  have found := type?_setOverride_eq element part
  refine ⟨?_, found⟩
  constructor
  · intro counts
    have self := sameButCase_self (PartName.bare part)
    have last := counts.single "" "" part part self self
    rw [overrideTypes_setOverride_again element self self] at last
    exact List.append_left_eq_self.1 last
  · intro none
    constructor
    case own =>
      intro type name same
      rw [found, if_pos same, none]
      rfl
    case others =>
      intro type name apart
      rw [found, apart]
      rfl
    case single =>
      intro first type again name same same'
      rw [overrideTypes_setOverride_again element same same', none]
      rfl

/-- A list with a default and with two overrides for one part, the first of them without a type. -/
def twiceOverridden : Node :=
  .element ⟨some Namespace.contentTypes, none, "Types"⟩
    [⟨⟨some Namespace.declarations, none, "xmlns"⟩, Namespace.contentTypes⟩]
    [.element ⟨some Namespace.contentTypes, none, "Default"⟩
        [⟨.plain "Extension", "xml"⟩, ⟨.plain "ContentType", "application/xml"⟩] [],
      .element ⟨some Namespace.contentTypes, none, "Override"⟩ [⟨.plain "PartName", "/A.xml"⟩] [],
      .element ⟨some Namespace.contentTypes, none, "Override"⟩
        [⟨.plain "PartName", "/a.XML"⟩, ⟨.plain "ContentType", "old"⟩] []]

theorem overrideCounts_twiceOverridden :
    readText twiceOverridden.write = .ok twiceOverridden ∧ OverrideCounts twiceOverridden "a.xml" ∧
      type? (setOverride twiceOverridden "a.xml" "new") "//A.xml" = some "new" ∧
      type? (setOverride twiceOverridden "a.xml" "new") "b.xml" = some "application/xml" := by
  have read : readText twiceOverridden.write = .ok twiceOverridden :=
    readText_of_outline (by decide +kernel)
  have noStray : strayTypes twiceOverridden "a.xml" = [] := by decide
  rcases overrideCounts_iff read "a.xml" with ⟨counts, -⟩
  have holds := counts.2 noStray
  refine ⟨read, holds, holds.own "new" "//A.xml" (by decide), ?_⟩
  rw [holds.others "new" "b.xml" (by decide)]
  decide

/-- A list whose override is in another namespace than its root. -/
def strayOverride : Node :=
  .element ⟨some Namespace.contentTypes, none, "Types"⟩
    [⟨⟨some Namespace.declarations, none, "xmlns"⟩, Namespace.contentTypes⟩]
    [.element ⟨some "urn:x", some "x", "Override"⟩
      [⟨⟨some Namespace.declarations, some "xmlns", "x"⟩, "urn:x"⟩, ⟨.plain "PartName", "/a.xml"⟩,
        ⟨.plain "ContentType", "old"⟩] []]

/-- The override of the other namespace is found and not replaced. -/
theorem not_overrideCounts_strayOverride :
    ¬ ∀ (text : List Char) (types : Node) (part : String), readText text = .ok types →
      OverrideCounts types part := by
  intro counts
  have read : readText strayOverride.write = .ok strayOverride :=
    readText_of_outline (by decide +kernel)
  have set := (counts _ _ "a.xml" read).own "new" "a.xml" (by decide)
  have stays : type? (setOverride strayOverride "a.xml" "new") "a.xml" = some "old" := by decide
  rw [stays] at set
  exact absurd set (by decide)

end TemplateFill.ContentTypes
