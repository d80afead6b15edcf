import Mathlib.Data.List.Destutter
import Tabletop.Proofs.Walks

/-!
The way back: every walk on the table can be undone, leg by leg in reverse.
-/

namespace Tabletop

variable {α : Type} [DecidableEq α] {a b : α}

theorem destutter_append_cons_self (l : List α) (a : α) (m : List α) :
    (l ++ a :: a :: m).destutter (· ≠ ·) = (l ++ a :: m).destutter (· ≠ ·) := by
  have hfrom (c : α) (l : List α) :
      (l ++ a :: a :: m).destutter' (· ≠ ·) c = (l ++ a :: m).destutter' (· ≠ ·) c := by
    induction l generalizing c with
    | nil => by_cases hc : c = a <;> simp [hc]
    | cons d l ih => simp only [List.cons_append, List.destutter'_cons, ih]
  cases l with
  | nil => simp [List.destutter_cons']
  | cons c l => exact hfrom c l

theorem destutter_append_cons_ne (h : a ≠ b) (l m : List α) :
    (l ++ a :: b :: m).destutter (· ≠ ·) =
      (l ++ [a]).destutter (· ≠ ·) ++ (b :: m).destutter (· ≠ ·) := by
  have hfrom (c : α) (l : List α) :
      (l ++ a :: b :: m).destutter' (· ≠ ·) c =
        (l ++ [a]).destutter' (· ≠ ·) c ++ (b :: m).destutter (· ≠ ·) := by
    induction l generalizing c with
    | nil => by_cases hc : c = a <;> simp [List.destutter_cons', hc, h]
    | cons d l ih =>
      simp only [List.cons_append, List.destutter'_cons, ih]
      split <;> rfl
  cases l with
  | nil => simp [List.destutter_cons', h]
  | cons c l => exact hfrom c l

variable {t : Table} {r r' : Robot} {cell : Cell} {leg : Leg} {walk : List Leg}

theorem Heading.right_full (h : Heading) : h.right.right.right.right = h := by
  cases h <;> rfl

theorem Point.ahead_back (p : Point) (h : Heading) : (p.ahead h).ahead h.right.right = p := by
  obtain ⟨x, y⟩ := p
  cases h <;> simp only [ahead, Heading.right, Heading.dx, Heading.dy, Point.mk.injEq] <;> omega

namespace Leg

/-- The legs that undo a leg: a turn the other way, or a move with the robot turned about before and
after it. -/
def undo : Leg → List Leg
  | move => [right, right, move, right, right]
  | left => [right]
  | right => [left]

/-- The legs of a walk undone, the last of them first. -/
def wayBack (walk : List Leg) : List Leg :=
  walk.reverse.flatMap undo

theorem wayBack_cons (leg : Leg) (walk : List Leg) :
    wayBack (leg :: walk) = wayBack walk ++ leg.undo := by
  rw [wayBack, List.reverse_cons, List.flatMap_append, List.flatMap_singleton, wayBack]

end Leg

namespace Robot

/-- The cells a robot stands on in the course of a walk, the first before any leg of it. -/
def trail (t : Table) (r : Robot) (walk : List Leg) : List Cell :=
  r.pose.cell :: (r.course t (walk.map Leg.reading)).map fun result => result.1.pose.cell

theorem trail_cons (t : Table) (r : Robot) (leg : Leg) (walk : List Leg) :
    r.trail t (leg :: walk) = r.pose.cell :: (r.heed t leg.reading).1.trail t walk :=
  rfl

theorem Goes.trail (h : Goes t r leg r') (hr : r.placed = true) (walk : List Leg) :
    r.trail t (leg :: walk) = r.pose.cell :: r'.trail t walk := by
  rw [trail_cons, h.heed hr]

theorem trail_about (hr : r.placed = true) (walk : List Leg) :
    r.trail t (.right :: .right :: walk) =
      r.pose.cell :: r.pose.cell :: (r.face r.pose.heading.right.right).trail t walk := by
  rw [Goes.right.trail hr, (Goes.right (r := r.face r.pose.heading.right)).trail hr]
  rfl

theorem Walks.exists_trail (h : Walks t r walk r') :
    ∃ before, ∀ rest, r.trail t (walk ++ rest) = before ++ r'.trail t rest := by
  induction walk generalizing r with
  | nil =>
    rw [← h.arrives]
    exact ⟨[], fun rest => rfl⟩
  | cons leg walk ih =>
    obtain ⟨before, hbefore⟩ := ih (walks_cons_iff.1 h).2
    refine ⟨r.pose.cell :: before, fun rest => ?_⟩
    rw [List.cons_append, trail_cons, hbefore, List.cons_append]

/-- The first leg of a walk, what it does, and the rest of the walk. -/
theorem Walks.exists_next (h : Walks t r (leg :: walk) r') (hr : r.StandsOn t) :
    ∃ next, Goes t r leg next ∧ next.StandsOn t ∧ Walks t next walk r' := by
  obtain ⟨hleg, hwalk⟩ := walks_cons_iff.1 h
  have hgoes := ((obeys_heed t r leg.reading).goes rfl hleg).1
  exact ⟨_, hgoes, hgoes.standsOn hr, hwalk⟩

/-- The move of a robot that has turned about goes back where the robot came from. -/
theorem StandsOn.goes_back (hr : r.StandsOn t)
    (hcell : cell.point = r.pose.cell.point.ahead r.pose.heading) :
    Goes t ⟨⟨cell, r.pose.heading.right.right⟩, true⟩ .move
      ⟨⟨r.pose.cell, r.pose.heading.right.right⟩, true⟩ := by
  apply Goes.move r.pose.cell _ hr.mem
  rw [hcell, Point.ahead_back]

/-- A robot that has moved turns about, moves and turns about again to be back. -/
theorem walks_undo_move (hr : r.StandsOn t)
    (hcell : cell.point = r.pose.cell.point.ahead r.pose.heading) :
    Walks t ⟨⟨cell, r.pose.heading⟩, true⟩ (Leg.undo .move) r := by
  have habout := walks_about (t := t) (r := ⟨⟨cell, r.pose.heading⟩, true⟩) rfl
  have hmove := (hr.goes_back hcell).walks rfl
  have hagain := walks_about (t := t)
    (r := ⟨⟨r.pose.cell, r.pose.heading.right.right⟩, true⟩) rfl
  have hend : face ⟨⟨r.pose.cell, r.pose.heading.right.right⟩, true⟩
      r.pose.heading.right.right.right.right = r := by
    rw [Heading.right_full, ← hr.placed]
    rfl
  rw [hend] at hagain
  exact (habout.append hmove).append hagain

theorem trail_undo_move (hr : r.StandsOn t)
    (hcell : cell.point = r.pose.cell.point.ahead r.pose.heading) :
    trail t ⟨⟨cell, r.pose.heading⟩, true⟩ (Leg.undo .move) =
      [cell, cell, cell, r.pose.cell, r.pose.cell, r.pose.cell] := by
  have habout := trail_about (t := t) (r := ⟨⟨cell, r.pose.heading⟩, true⟩) rfl
    [.move, .right, .right]
  have hmove := (hr.goes_back hcell).trail rfl [.right, .right]
  have hagain := trail_about (t := t)
    (r := ⟨⟨r.pose.cell, r.pose.heading.right.right⟩, true⟩) rfl []
  rw [Leg.undo, habout]
  exact congrArg (cell :: cell :: ·) (hmove.trans (congrArg (cell :: ·) hagain))

theorem Goes.walks_undo (h : Goes t r leg r') (hr : r.StandsOn t) : Walks t r' leg.undo r := by
  cases h with
  | move cell hcell hmem => exact walks_undo_move hr hcell
  | left =>
    have hheading : (r.face r.pose.heading.left).pose.heading.right = r.pose.heading :=
      Heading.right_left _
    have hback := (Goes.right (t := t)).walks (hr.face r.pose.heading.left).placed
    rw [hheading] at hback
    exact hback
  | right =>
    have hheading : (r.face r.pose.heading.right).pose.heading.left = r.pose.heading :=
      Heading.left_right _
    have hback := (Goes.left (t := t)).walks (hr.face r.pose.heading.right).placed
    rw [hheading] at hback
    exact hback

theorem Walks.wayBack (h : Walks t r walk r') (hr : r.StandsOn t) :
    Walks t r' (Leg.wayBack walk) r := by
  induction walk generalizing r with
  | nil =>
    rw [← h.arrives]
    exact .nil t r
  | cons leg walk ih =>
    obtain ⟨next, hgoes, hnext, hwalk⟩ := h.exists_next hr
    rw [Leg.wayBack_cons]
    exact (ih hwalk hnext).append (hgoes.walks_undo hr)

/-- Whatever cells come before, undoing a leg adds the cell that the leg set out from. -/
theorem Goes.destutter_trail_undo (h : Goes t r leg r') (hr : r.StandsOn t) (before : List Cell) :
    (before ++ r'.trail t leg.undo).destutter (· ≠ ·) =
      (before ++ [r'.pose.cell, r.pose.cell]).destutter (· ≠ ·) := by
  cases h with
  | move cell hcell hmem =>
    rw [trail_undo_move hr hcell, destutter_append_cons_self, destutter_append_cons_self,
      List.append_cons, destutter_append_cons_self, destutter_append_cons_self, ← List.append_cons]
  | left =>
    rw [Leg.undo, Goes.right.trail (hr.face r.pose.heading.left).placed]
    rfl
  | right =>
    rw [Leg.undo, Goes.left.trail (hr.face r.pose.heading.right).placed]
    rfl

theorem Walks.trail_wayBack (h : Walks t r walk r') (hr : r.StandsOn t) :
    (r'.trail t (Leg.wayBack walk)).destutter (· ≠ ·) =
      ((r.trail t walk).destutter (· ≠ ·)).reverse := by
  induction walk generalizing r with
  | nil =>
    rw [← h.arrives]
    rfl
  | cons leg walk ih =>
    obtain ⟨next, hgoes, hnext, hwalk⟩ := h.exists_next hr
    obtain ⟨before, hbefore⟩ := (hwalk.wayBack hnext).exists_trail
    obtain ⟨later, hlater⟩ : ∃ later, next.trail t walk = next.pose.cell :: later := ⟨_, rfl⟩
    have hback : r'.trail t (Leg.wayBack walk) = before ++ [next.pose.cell] := by
      rw [← List.append_nil (Leg.wayBack walk), hbefore]
      rfl
    have hrest := ih hwalk hnext
    rw [hback, hlater] at hrest
    rw [Leg.wayBack_cons, hbefore, hgoes.destutter_trail_undo hr, hgoes.trail hr.placed, hlater]
    -- A turn leaves both trails as they are; a move adds the cell it set out from to each.
    by_cases hcell : next.pose.cell = r.pose.cell
    · rw [hcell] at hrest ⊢
      rw [destutter_append_cons_self, hrest]
      exact congrArg List.reverse (destutter_append_cons_self [] r.pose.cell later).symm
    · have hforth := destutter_append_cons_ne (Ne.symm hcell) [] later
      rw [List.nil_append, List.nil_append] at hforth
      rw [destutter_append_cons_ne hcell, hrest, hforth, List.reverse_append]
      rfl

/-- Whatever a robot on the table walks, it can walk back, and it comes through the same cells in
reverse; turns on the spot do not count as coming to a cell. -/
theorem walks_back (t : Table) {r r' : Robot} (hr : r.placed = true)
    (hmem : r.pose.cell.point ∈ t) {walk : List Leg} (h : Walks t r walk r') :
    Walks t r' (Leg.wayBack walk) r ∧
      (r'.trail t (Leg.wayBack walk)).destutter (· ≠ ·) =
        ((r.trail t walk).destutter (· ≠ ·)).reverse :=
  ⟨h.wayBack ⟨hr, hmem⟩, h.trail_wayBack ⟨hr, hmem⟩⟩

theorem walks_back_around_corner :
    let t : Table := ⟨2147483647, 1⟩
    let r : Robot := ⟨⟨⟨2147483646, 0⟩, .east⟩, true⟩
    let r' : Robot := ⟨⟨⟨2147483646, 1⟩, .west⟩, true⟩
    let walk : List Leg := [.move, .left, .move, .right, .left, .left, .move]
    let back : List Leg :=
      [.right, .right, .move, .right, .right, .right, .right, .left, .right, .right, .move, .right,
        .right, .right, .right, .right, .move, .right, .right]
    r.placed = true ∧ r.pose.cell.point ∈ t ∧ Walks t r walk r' ∧ Walks t r' back r ∧
      (r'.trail t back).destutter (· ≠ ·) =
        [⟨2147483646, 1⟩, ⟨2147483647, 1⟩, ⟨2147483647, 0⟩, ⟨2147483646, 0⟩] := by
  intro t r r' walk back
  have hmem : r.pose.cell.point ∈ t := by decide
  have hwalk : Walks t r walk r' := ⟨by decide, by decide⟩
  obtain ⟨hback, htrail⟩ := walks_back t rfl hmem hwalk
  exact ⟨rfl, hmem, hwalk, hback, htrail.trans (by decide)⟩

end Robot

end Tabletop
