import TemplateFill.Bookmark.Substitute
import TemplateFill.Proofs.Bookmark.Filling
import TemplateFill.Proofs.Bookmark.FlatPlace

/-!
# Which bookmarks are refused

Half of what is asked of a bookmark is asked of the flat form of its document.  The answers can
be read off the document as it is stored: flattening keeps the first markers and their order, it
keeps the containers around them, and it puts two nodes side by side exactly if the nearest
nodes above them that are the root or no paragraphs are the same.
-/

namespace TemplateFill

namespace Bookmark

open Node

/-- Why the start marker at a position and its end are no place to fill, if they are none. -/
def markersRefusal? (root : Node) (name : String) (start : Path) (marker : Node) : Option Error :=
  match marker.markerId? with
  | none => some (.brokenMarkers (.noNumericId name))
  | some id =>
      match root.findPlaced? (·.endsBookmark id) with
      | none => some (.brokenMarkers (.noEnd name id))
      | some (stop, _) =>
          match (nearestContainer? root start).or (nearestContainer? root stop) with
          | some container => some (.insideContainer name container)
          | none =>
              if root.levelOf start ≠ root.levelOf stop then some (.differentLevels name)
              else if stop < start then some (.brokenMarkers (.endFirst name))
              else none

/-- Why the bookmark `name` of a stored document is not filled, if it is not; `revised` says that
the document has tracked revisions. -/
def refusal? (root : Node) (revised : Bool) (name : String) : Option Error :=
  match findStart? root name with
  | none => some (.markerNotFound name)
  | some (start, marker) =>
      if (root.at? start.dropLast).any (·.kind == .math) then some (.insideFormula name)
      else if revised then some .trackedRevisions
      else if root.descendants.any (·.kind == .contentControl) then some .contentControls
      else markersRefusal? root name start marker

section Markers

variable {root marker : Node} {path : Path}

theorem kind_of_startsBookmark {name : String} (starts : marker.startsBookmark name = true) :
    marker.kind = .bookmarkStart := by
  rw [startsBookmark, Bool.and_eq_true] at starts
  exact beq_iff_eq.1 starts.1

theorem kind_of_endsBookmark {id : Int} (ends : marker.endsBookmark id = true) :
    marker.kind = .bookmarkEnd := by
  rw [endsBookmark, Bool.and_eq_true] at ends
  exact beq_iff_eq.1 ends.1

/-- What is known of a marker that is found in a document with all markers outside paragraph
properties. -/
structure Found (root : Node) (accept : Node → Bool) (path : Path) (marker : Node) : Prop where
  reached : Reaches ClearOfProps root path marker
  accepted : accept marker = true
  no_paragraph : marker.isParagraph = false
  flat : root.flatten.findPlaced? accept = some (root.flatPlace path, marker.flatten)

theorem found_of_findPlaced? {accept : Node → Bool} (byLabel : ByLabel accept)
    (kinds : ∀ node, accept node = true → node.kind = .bookmarkStart ∨ node.kind = .bookmarkEnd)
    (outside : MarkersOutsideProps root) (first : root.findPlaced? accept = some (path, marker)) :
    Found root accept path marker := by
  obtain ⟨way, name, attrs, left, right, parts, reached, _, accepted⟩ :=
    findPlaced?_eq_some_iff.1 first
  have kind := kinds marker accepted
  have noParagraph : marker.isParagraph = false := by
    rcases kind with kind | kind <;> rw [isParagraph, kind] <;> rfl
  have way' : Reaches (fun _ _ => True) root path marker := by
    obtain rfl : path = way ++ [left.length] := parts
    exact (reached.mono fun _ _ _ => trivial).concat trivial
  have clear := way'.clearOfProps outside kind
  exact ⟨clear, accepted, noParagraph, findPlaced?_flatten byLabel first clear noParagraph⟩

theorem found_start {name : String} (outside : MarkersOutsideProps root)
    (first : findStart? root name = some (path, marker)) :
    Found root (·.startsBookmark name) path marker :=
  found_of_findPlaced? (byLabel_startsBookmark name)
    (fun _ accepted => .inl (kind_of_startsBookmark accepted)) outside first

theorem found_stop {id : Int} (outside : MarkersOutsideProps root)
    (first : root.findPlaced? (·.endsBookmark id) = some (path, marker)) :
    Found root (·.endsBookmark id) path marker :=
  found_of_findPlaced? (byLabel_endsBookmark id)
    (fun _ accepted => .inr (kind_of_endsBookmark accepted)) outside first

theorem findPlaced?_flatten_eq_none {accept : Node → Bool} (byLabel : ByLabel accept)
    (lost : root.findPlaced? accept = none) : root.flatten.findPlaced? accept = none := by
  have none := byLabel.noneAmong_iff.1 (findPlaced?_eq_none_iff.1 lost)
  exact findPlaced?_eq_none_iff.2 (byLabel.noneAmong_iff.2 (everyLabel_children_flatten none))

end Markers

/-- A computation ends with the error that it is refused with, or else with a value. -/
def EndsAs {α : Type} (result : Except Error α) (refused : Option Error) : Prop :=
  match refused with
  | some error => result = .error error
  | none => ∃ value, result = .ok value

section Pair

variable {root startMarker stopMarker : Node} {name : String} {id : Int} {start stop : Path}

/-- Siblings are in document order by their indexes. -/
theorem concat_lt_concat_iff {front : Path} {first last : Nat} :
    front ++ [first] < front ++ [last] ↔ first < last := by
  induction front with
  | nil => simp [List.cons_lt_cons_iff]
  | cons head rest ih => simp [ih]

theorem Found.exists_flatPlace {accept : Node → Bool}
    (found : Found root accept start startMarker) :
    ∃ front last, root.flatPlace start = front ++ [last] := by
  obtain ⟨front, _, _, left, _, same, _⟩ := findPlaced?_eq_some_iff.1 found.flat
  exact ⟨front, left.length, same⟩

/-- Two markers make a pair in the flat form exactly if they are on one level of the document and
the end does not come first. -/
theorem pair_flatPlace {accept accept' : Node → Bool}
    (starts : Found root accept start startMarker) (ends : Found root accept' stop stopMarker)
    (different : start ≠ stop) :
    EndsAs (pair name (root.flatPlace start) (root.flatPlace stop))
      (if root.levelOf start ≠ root.levelOf stop then some (.differentLevels name)
      else if stop < start then some (.brokenMarkers (.endFirst name))
      else none) := by
  obtain ⟨startLevel, level, toLevel, isLevel⟩ := starts.reached.flatPlace_levelOf
  obtain ⟨stopLevel, level', toLevel', isLevel'⟩ := ends.reached.flatPlace_levelOf
  have levels : (root.flatPlace start).dropLast = (root.flatPlace stop).dropLast ↔
      root.levelOf start = root.levelOf stop := by
    rw [startLevel, stopLevel]
    constructor
    · exact toLevel.flatPlace_inj toLevel' isLevel isLevel'
    · intro same
      rw [same]
  have forwards := starts.reached.flatPlace_lt ends.reached (.inr starts.no_paragraph)
  have backwards := ends.reached.flatPlace_lt starts.reached (.inr ends.no_paragraph)
  rw [pair]
  by_cases same : root.levelOf start = root.levelOf stop
  · rw [if_pos (levels.2 same), if_neg (not_not_intro same)]
    obtain ⟨front, first, startParts⟩ := starts.exists_flatPlace
    obtain ⟨front', last, stopParts⟩ := ends.exists_flatPlace
    have fronts := levels.2 same
    rw [startParts, stopParts, List.dropLast_concat, List.dropLast_concat] at fronts
    rw [startParts, stopParts, fronts, List.getLastD_concat, List.getLastD_concat]
    rw [startParts, stopParts, fronts] at forwards backwards
    rw [concat_lt_concat_iff] at forwards backwards
    by_cases before : stop < start
    · have behind := backwards before
      rw [dif_neg (by omega), if_pos before]
      rfl
    · have ahead : start < stop := by
        apply List.not_le.1
        intro behind
        exact different (List.le_antisymm (List.not_lt.1 before) behind)
      rw [dif_pos (forwards ahead), if_neg before]
      exact ⟨_, rfl⟩
  · rw [if_neg fun flatSame => same (levels.1 flatSame), if_pos same]
    rfl

end Pair

/-! ## The outcome of a substitution -/

section Outcome

variable {root : Node} {name : String}

theorem EndsAs.eq_error_iff {α : Type} {result : Except Error α} {refused : Option Error}
    (ends : EndsAs result refused) (error : Error) :
    result = .error error ↔ refused = some error := by
  cases refused with
  | none =>
      rcases ends with ⟨value, rfl⟩
      simp
  | some other =>
      rw [EndsAs] at ends
      simp [ends]

theorem EndsAs.exists_ok_iff {α : Type} {result : Except Error α} {refused : Option Error}
    (ends : EndsAs result refused) : (∃ value, result = .ok value) ↔ refused = none := by
  cases refused with
  | none => exact ⟨fun _ => rfl, fun _ => ends⟩
  | some other =>
      rw [EndsAs] at ends
      simp [ends]

/-- With both markers found, locating in the flat form looks for containers and makes a pair. -/
private theorem endsAs_locate_of_found {id : Int} {start stop : Path} {marker stopMarker : Node}
    (starts : Found root (·.startsBookmark name) start marker)
    (ends : Found root (·.endsBookmark id) stop stopMarker)
    (markers : findMarkers root.flatten name = .ok (root.flatPlace start, root.flatPlace stop)) :
    EndsAs (locate root.flatten name)
      (match (nearestContainer? root start).or (nearestContainer? root stop) with
      | some container => some (.insideContainer name container)
      | none =>
          if root.levelOf start ≠ root.levelOf stop then some (.differentLevels name)
          else if stop < start then some (.brokenMarkers (.endFirst name))
          else none) := by
  have different : start ≠ stop := by
    rintro rfl
    have kind := kind_of_startsBookmark starts.accepted
    rw [starts.reached.target_eq ends.reached, kind_of_endsBookmark ends.accepted] at kind
    cases kind
  have located : locate root.flatten name =
      match (nearestContainer? root start).or (nearestContainer? root stop) with
      | some container => .error (.insideContainer name container)
      | none => pair name (root.flatPlace start) (root.flatPlace stop) := by
    rw [locate, markers, ← nearestContainer?_flatten starts.reached,
      ← nearestContainer?_flatten ends.reached]
    rfl
  rw [located]
  cases (nearestContainer? root start).or (nearestContainer? root stop) with
  | some container => rfl
  | none => exact pair_flatPlace starts ends different

/-- Locating in the flat form ends as the markers of the document say. -/
private theorem endsAs_locate_flatten {start : Path} {marker : Node}
    (outside : MarkersOutsideProps root)
    (first : findStart? root name = some (start, marker)) :
    EndsAs (locate root.flatten name) (markersRefusal? root name start marker) := by
  have starts := found_start outside first
  have flatId := markerId?_eq_of_label_eq (label_flatten marker)
  have lost : ∀ {error : Error}, findMarkers root.flatten name = .error error →
      EndsAs (locate root.flatten name) (some error) := by
    intro error unfound
    rw [EndsAs, locate, unfound]
    rfl
  rw [markersRefusal?]
  cases numbered : marker.markerId? with
  | none =>
      apply lost
      simp only [findMarkers, findStart?, starts.flat, flatId, numbered]
  | some id =>
      simp only
      cases second : root.findPlaced? (·.endsBookmark id) with
      | none =>
          apply lost
          simp only [findMarkers, findStart?, starts.flat, flatId, numbered,
            findPlaced?_flatten_eq_none (byLabel_endsBookmark id) second]
      | some place =>
          have ends := found_stop outside second
          apply endsAs_locate_of_found starts ends
          simp only [findMarkers, findStart?, starts.flat, flatId, numbered, ends.flat]

/-- A substitution in a valid document ends as locating does. -/
private theorem endsAs_substitute {revised : Bool} {refused : Option Error} (text : String)
    (valid : validate root revised name = .ok ())
    (ends : EndsAs (locate root.flatten name) refused) :
    EndsAs (substitute root revised name text) refused := by
  cases refused with
  | some error =>
      rw [EndsAs] at ends
      rw [EndsAs, substitute, valid]
      simp only [ends]
      rfl
  | none =>
      rcases ends with ⟨pair, located⟩
      exact ⟨_, substitute_of_located text valid located⟩

private theorem endsAs_substitute_refusal? (outside : MarkersOutsideProps root) (revised : Bool)
    (text : String) :
    EndsAs (substitute root revised name text) (refusal? root revised name) := by
  have stops : ∀ {error : Error}, validate root revised name = .error error →
      EndsAs (substitute root revised name text) (some error) := by
    intro error invalid
    rw [EndsAs, substitute, invalid]
    rfl
  rw [refusal?]
  cases first : findStart? root name with
  | none =>
      apply stops
      rw [validate, first]
  | some place =>
      rcases place with ⟨start, marker⟩
      have checks : validate root revised name =
          if (root.at? start.dropLast).any (·.kind == .math) then .error (.insideFormula name)
          else if revised then .error .trackedRevisions
          else if root.descendants.any (·.kind == .contentControl) then .error .contentControls
          else .ok () := by
        rw [validate, first]
      change EndsAs _ (if (root.at? start.dropLast).any (·.kind == .math) then _ else _)
      split
      · rename_i formula
        exact stops (checks.trans (if_pos formula))
      · rename_i noFormula
        rw [if_neg noFormula] at checks
        split
        · rename_i isRevised
          exact stops (checks.trans (if_pos isRevised))
        · rename_i notRevised
          rw [if_neg notRevised] at checks
          split
          · rename_i controls
            exact stops (checks.trans (if_pos controls))
          · rename_i noControls
            rw [if_neg noControls] at checks
            exact endsAs_substitute text checks (endsAs_locate_flatten outside first)

/-- Whether a bookmark is filled, and why it is not, is decided by the document as it is stored,
if no marker is in paragraph properties.  The document is a `Node`, so that nothing is below its
texts and comments, and no marker is. -/
theorem substitute_refused_iff (outside : MarkersOutsideProps root) (revised : Bool)
    (text : String) :
    (∀ error, substitute root revised name text = .error error ↔
        refusal? root revised name = some error) ∧
      ((∃ filled, substitute root revised name text = .ok filled) ↔
        refusal? root revised name = none) := by
  have ends : EndsAs (substitute root revised name text) (refusal? root revised name) :=
    endsAs_substitute_refusal? outside revised text
  exact ⟨ends.eq_error_iff, ends.exists_ok_iff⟩

end Outcome

theorem sample_refused_iff :
    MarkersOutsideProps sample ∧
      (∃ filled, substitute sample false "b" "new" = .ok filled) ∧
      substitute sample false "c" "new" = .error (.markerNotFound "c") := by
  have outside : MarkersOutsideProps sample :=
    show ∀ props ∈ sample.selfAndDescendants, props.isParagraphProps = true →
      ∀ inner ∈ props.descendants, inner.kind ≠ .bookmarkStart ∧ inner.kind ≠ .bookmarkEnd by decide
  refine ⟨outside, ?_, ?_⟩
  · exact (substitute_refused_iff outside false "new").2.2 rfl
  · exact ((substitute_refused_iff outside false "new").1 (.markerNotFound "c")).2 rfl

end Bookmark

end TemplateFill
