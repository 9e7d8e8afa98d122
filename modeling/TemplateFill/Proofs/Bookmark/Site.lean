import TemplateFill.Bookmark.Substitute
import TemplateFill.Proofs.Markup.Place

/-!
# Where a bookmark is

A pair of markers is located exactly when the first start marker of its name and the first end
marker of the same number are children of one node, the start before the end.  The node with
both markers among its children is the site of the bookmark.
-/

namespace TemplateFill

namespace Node

theorem byLabel_startsBookmark (name : String) : ByLabel (·.startsBookmark name) := by
  intro left right same
  simp only [startsBookmark, attr?, attrs, kind, same]

theorem markerId?_eq_of_label_eq {left right : Node} (same : left.label = right.label) :
    left.markerId? = right.markerId? := by
  simp only [markerId?, attr?, attrs, same]

theorem byLabel_endsBookmark (id : Int) : ByLabel (·.endsBookmark id) := by
  intro left right same
  simp only [endsBookmark, markerId?_eq_of_label_eq same, kind, same]

end Node

namespace Bookmark

/-- A node with both markers of a bookmark among its children. -/
structure Site where
  name : QName
  attrs : List Attr
  /-- The siblings before the start marker. -/
  left : List Node
  start : Node
  /-- The siblings between the markers. -/
  inside : List Node
  stop : Node
  /-- The siblings behind the end marker. -/
  right : List Node
  /-- The number of both markers. -/
  id : Int

namespace Site

/-- The children of a site with other siblings between the markers. -/
def siblings (site : Site) (middle : List Node) : List Node :=
  site.left ++ site.start :: (middle ++ site.stop :: site.right)

/-- A site with other siblings between its markers. -/
def holding (site : Site) (middle : List Node) : Node :=
  .element site.name site.attrs (site.siblings middle)

/-- The pair of the markers of a site at a position. -/
def pair (site : Site) (path : Path) : MarkerPair where
  parent := path
  first := site.left.length
  last := (site.left ++ site.start :: site.inside).length
  first_lt_last := by simp

/-- A step on the way to a site passes by all markers that could be taken for its own. -/
def Passes (bookmark : String) (id : Int) (left : List Node) (child : Node) : Prop :=
  Node.PassesBy (·.startsBookmark bookmark) left child ∧
    Node.PassesBy (·.endsBookmark id) left child

/-- A site at a position has the markers of a bookmark. -/
structure Marks (site : Site) (root : Node) (bookmark : String) (path : Path) : Prop where
  reached : root.Reaches (Passes bookmark site.id) path (site.holding site.inside)
  no_start : Node.NoneAmong (·.startsBookmark bookmark) site.left
  no_stop : Node.NoneAmong (·.endsBookmark site.id) (site.left ++ site.start :: site.inside)
  starts : site.start.startsBookmark bookmark = true
  markerId : site.start.markerId? = some site.id
  ends : site.stop.endsBookmark site.id = true

theorem between_pair (site : Site) (path : Path) :
    (site.pair path).between (site.siblings site.inside) = site.inside := by
  have whole : site.siblings site.inside =
      (site.left ++ site.start :: site.inside) ++ site.stop :: site.right := by
    simp [siblings]
  have front : site.left ++ site.start :: site.inside =
      (site.left ++ [site.start]) ++ site.inside := by simp
  have short : (site.pair path).first + 1 = (site.left ++ [site.start]).length := by simp [pair]
  rw [MarkerPair.between, whole, short]
  rw [show (site.pair path).last = (site.left ++ site.start :: site.inside).length from rfl,
    List.take_left, front, List.drop_left]

theorem take_siblings (site : Site) (path : Path) :
    (site.siblings site.inside).take ((site.pair path).first + 1) = site.left ++ [site.start] := by
  have front : site.siblings site.inside =
      (site.left ++ [site.start]) ++ (site.inside ++ site.stop :: site.right) := by
    simp [siblings]
  have short : (site.pair path).first + 1 = (site.left ++ [site.start]).length := by simp [pair]
  rw [front, short, List.take_left]

theorem drop_siblings (site : Site) (path : Path) :
    (site.siblings site.inside).drop (site.pair path).last = site.stop :: site.right := by
  have whole : site.siblings site.inside =
      (site.left ++ site.start :: site.inside) ++ site.stop :: site.right := by
    simp [siblings]
  rw [whole]
  exact List.drop_left

/-- Only what is between the markers is replaced. -/
theorem replaceBetween_siblings (site : Site) (path : Path) :
    Node.replaceBetween (site.pair path) (site.siblings site.inside) =
      site.siblings (Node.placeholderFor site.inside ::
        site.inside.filter Node.outlivesReplacement) := by
  rw [Node.replaceBetween, between_pair, take_siblings, drop_siblings]
  simp [siblings]

theorem Marks.start_kind {site : Site} {root : Node} {bookmark : String} {path : Path}
    (marks : site.Marks root bookmark path) : site.start.kind = .bookmarkStart := by
  have starts := marks.starts
  rw [Node.startsBookmark, Bool.and_eq_true] at starts
  exact beq_iff_eq.1 starts.1

theorem Marks.stop_kind {site : Site} {root : Node} {bookmark : String} {path : Path}
    (marks : site.Marks root bookmark path) : site.stop.kind = .bookmarkEnd := by
  have ends := marks.ends
  rw [Node.endsBookmark, Bool.and_eq_true] at ends
  exact beq_iff_eq.1 ends.1

theorem forall_mem_siblings {property : Node → Prop} {site : Site} {middle : List Node} :
    (∀ node ∈ site.siblings middle, property node) ↔
      (∀ node ∈ site.left, property node) ∧ property site.start ∧
        (∀ node ∈ middle, property node) ∧ property site.stop ∧
          ∀ node ∈ site.right, property node := by
  simp only [siblings, List.forall_mem_append, List.forall_mem_cons]

end Site

variable {root : Node} {bookmark : String} {pair : MarkerPair}

/-- Located markers belong to a site. -/
theorem exists_site_of_findPair (found : findPair root bookmark = .ok pair) :
    ∃ site path, Site.Marks site root bookmark path ∧ pair = site.pair path := by
  unfold findPair findMarkers findStart? at found
  cases starting : root.findPlaced? (·.startsBookmark bookmark) with
  | none => rw [starting] at found; cases found
  | some startPlace =>
      rcases startPlace with ⟨startPath, start⟩
      rw [starting] at found
      cases numbered : start.markerId? with
      | none => simp only [numbered] at found; cases found
      | some id =>
          simp only [numbered] at found
          cases stopping : root.findPlaced? (·.endsBookmark id) with
          | none => rw [stopping] at found; cases found
          | some stopPlace =>
              rcases stopPlace with ⟨stopPath, stop⟩
              rw [stopping] at found
              change Bookmark.pair bookmark startPath stopPath = .ok pair at found
              obtain ⟨path, name, attrs, left, right, rfl, toStart, noStart, starts⟩ :=
                Node.findPlaced?_eq_some_iff.1 starting
              obtain ⟨path', name', attrs', left', right', rfl, toStop, noStop, ends⟩ :=
                Node.findPlaced?_eq_some_iff.1 stopping
              simp only [Bookmark.pair, List.dropLast_concat, List.getLastD_concat] at found
              split at found
              · rename_i samePath
                subst samePath
                split at found
                · rename_i ordered
                  obtain ⟨rfl, rfl, whole⟩ := Node.element.inj (toStart.target_eq toStop)
                  obtain ⟨inside, rfl, rfl⟩ := Node.exists_between whole ordered
                  refine ⟨⟨name, attrs, left, start, inside, stop, right', id⟩, path, ?_, ?_⟩
                  · exact ⟨toStart.and toStop, noStart, noStop, starts, numbered, ends⟩
                  · exact (Except.ok.inj found).symm
                · cases found
              · cases found

theorem findStart?_of_marks {site : Site} {path : Path} (marks : site.Marks root bookmark path) :
    findStart? root bookmark = some (path ++ [site.left.length], site.start) :=
  Node.findPlaced?_of_reaches (marks.reached.mono fun _ _ passing => passing.1)
    marks.no_start marks.starts

/-- The markers of a site are found. -/
theorem findMarkers_of_marks {site : Site} {path : Path} (marks : site.Marks root bookmark path) :
    findMarkers root bookmark = .ok (path ++ [site.left.length],
      path ++ [(site.left ++ site.start :: site.inside).length]) := by
  have reached : root.Reaches (Site.Passes bookmark site.id) path
      (.element site.name site.attrs
        ((site.left ++ site.start :: site.inside) ++ site.stop :: site.right)) := by
    simpa [Site.holding, Site.siblings] using marks.reached
  have stopping : root.findPlaced? (·.endsBookmark site.id) =
      some (path ++ [(site.left ++ site.start :: site.inside).length], site.stop) :=
    Node.findPlaced?_of_reaches (reached.mono fun _ _ passing => passing.2)
      marks.no_stop marks.ends
  simp only [findMarkers, findStart?_of_marks marks, marks.markerId, stopping]

private theorem pair_site (site : Site) (path : Path) :
    Bookmark.pair bookmark (path ++ [site.left.length])
      (path ++ [(site.left ++ site.start :: site.inside).length]) = .ok (site.pair path) := by
  have ordered : site.left.length < (site.left ++ site.start :: site.inside).length := by simp
  simp only [Bookmark.pair, List.dropLast_concat, List.getLastD_concat, if_true, dif_pos ordered]
  rfl

/-- And they make a pair. -/
theorem findPair_of_marks {site : Site} {path : Path} (marks : site.Marks root bookmark path) :
    findPair root bookmark = .ok (site.pair path) := by
  rw [findPair, findMarkers_of_marks marks]
  exact pair_site site path

/-- Once both markers are found only a container around them keeps them from being located. -/
theorem locate_eq_of_findMarkers {start stop : Path}
    (found : findMarkers root bookmark = .ok (start, stop)) :
    locate root bookmark =
      ((nearestContainer? root start).or (nearestContainer? root stop)).elim
        (Bookmark.pair bookmark start stop)
        fun container => .error (.insideContainer bookmark container) := by
  simp only [locate, found, bind, Except.bind]
  cases (nearestContainer? root start).or (nearestContainer? root stop) with
  | none => rfl
  | some container => rfl

/-- Locating finds the markers of a site exactly if there is no container around them. -/
theorem locate_of_marks_iff {site : Site} {path : Path} (marks : site.Marks root bookmark path) :
    locate root bookmark = .ok (site.pair path) ↔
      nearestContainer? root (path ++ [site.left.length]) = none ∧
        nearestContainer? root (path ++ [(site.left ++ site.start :: site.inside).length]) =
          none := by
  rw [locate_eq_of_findMarkers (findMarkers_of_marks marks), ← Option.or_eq_none_iff]
  cases (nearestContainer? root (path ++ [site.left.length])).or
      (nearestContainer? root (path ++ [(site.left ++ site.start :: site.inside).length])) with
  | none => exact ⟨fun _ => rfl, fun _ => pair_site site path⟩
  | some container =>
      constructor
      · intro found
        cases found
      · intro none
        cases none

theorem findPair_of_locate (located : locate root bookmark = .ok pair) :
    findPair root bookmark = .ok pair := by
  cases found : findMarkers root bookmark with
  | error error =>
      rw [locate, found] at located
      cases located
  | ok markers =>
      rcases markers with ⟨start, stop⟩
      rw [locate_eq_of_findMarkers found] at located
      rw [findPair, found]
      cases around : (nearestContainer? root start).or (nearestContainer? root stop) with
      | none =>
          rw [around] at located
          exact located
      | some container =>
          rw [around] at located
          cases located

end Bookmark

end TemplateFill
