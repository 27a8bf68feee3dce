import Linework.Proofs.Plane.Image
import Linework.Proofs.Sheet.Calls
import Linework.Proofs.Sheet.Placement

/-!
# Ovals on a sheet

With exact coordinates an oval is joined to the path at the image of its start, and each of its
pieces becomes one part. Under a transform that keeps the ellipse from being flat these parts are
arcs, and each of them is the image of the arc that its piece asks for.
-/

set_option autoImplicit false

namespace Linework

open Scalar EndpointArc

def EndpointArc.part {α : Type} (request : EndpointArc α) : Part α :=
  .arc request.radii request.rotation request.large request.clockwise request.finish

namespace Affine

variable {m : Affine ℝ} {radii : Point ℝ} {rotation : ℝ}

theorem place_pos (n : Nat) : (0 : ℝ) < place n := by
  rw [real_place]
  positivity

variable [HasAxes ℝ]

theorem ellipseImage?_of_axes (hplain : m.isNearlyShift = false)
    (hminor : place 8 < (HasAxes.axes (m.onAxes radii rotation)).minor) :
    m.ellipseImage? radii rotation =
      .ok (some ⟨⟨(HasAxes.axes (m.onAxes radii rotation)).major,
        (HasAxes.axes (m.onAxes radii rotation)).minor⟩,
        toDegrees (HasAxes.axes (m.onAxes radii rotation)).angle, m.reverses⟩) := by
  rw [ellipseImage?, if_neg (by simp [hplain]), stretched_real, ok_bind,
    if_neg (by simpa using hminor)]
  rfl

theorem ellipseImage?_of_flat (hplain : m.isNearlyShift = false)
    (hminor : (HasAxes.axes (m.onAxes radii rotation)).minor ≤ place 8) :
    m.ellipseImage? radii rotation = .ok none := by
  rw [ellipseImage?, if_neg (by simp [hplain]), stretched_real, ok_bind,
    if_pos (by simpa using hminor)]
  rfl

end Affine

namespace Sheet

theorem exists_joinTo (z : Point ℝ) (s : Sheet ℝ) :
    ∃ j, (joinTo z).run s = (.ok (), j) ∧ j.current = some z ∧ j.transform = s.transform := by
  have hadd : ∀ part : Part ℝ, ∀ f : Sheet ℝ → Sheet ℝ, (append part >>= fun _ => modify f).run s =
      (.ok (), f { s with backwards := part :: s.backwards }) := by
    intro part f
    rw [Act.run_bind_ok (run_append_of_finite (nonFinite?_real part) s)]
    rfl
  rw [joinTo, Act.run_bind_ok (Act.run_get s)]
  cases s.current with
  | none => exact ⟨_, hadd (.move z) (openAt z), rfl, rfl⟩
  | some p =>
    have hclose : ∃ near, p.isClose z = .ok near := ⟨_, rfl⟩
    obtain ⟨near, hclose⟩ := hclose
    dsimp only
    rw [hclose]
    cases near with
    | true => exact ⟨_, rfl, rfl, rfl⟩
    | false => exact ⟨_, hadd (.line z) (setCurrent z), rfl, rfl⟩

theorem exists_drawPieces (image : Option (EllipseImage ℝ)) (pieces : List (EndpointArc ℝ))
    (s : Sheet ℝ) :
    ∃ t, (drawPieces image pieces).run s = (.ok (), t) ∧
      t.parts = s.parts ++ pieces.map fun piece => piecePart image piece (s.map piece.finish) := by
  induction pieces generalizing s with
  | nil => exact ⟨s, rfl, by simp⟩
  | cons piece rest ih =>
    obtain ⟨t, hrun, hparts⟩ := ih (setCurrent (s.map piece.finish)
      { s with backwards := piecePart image piece (s.map piece.finish) :: s.backwards })
    refine ⟨t, ?_, ?_⟩
    · rw [drawPieces, Act.run_bind_ok (Act.run_get s),
        Act.run_bind_ok (run_append_of_finite (nonFinite?_real _) s),
        Act.run_bind_ok (Act.run_modify _ _)]
      exact hrun
    · rw [hparts, List.map_cons]
      simp [parts, setCurrent, map]

variable [HasAxes ℝ]

theorem exists_run_oval {o : Oval ℝ} {start : Point ℝ} {pieces : List (EndpointArc ℝ)}
    {image : Option (EllipseImage ℝ)} (s : Sheet ℝ) (hpieces : o.pieces = .ok (start, pieces))
    (himage : s.transform.ellipseImage? o.ellipse.radii o.ellipse.rotation = .ok image) :
    ∃ j t, (joinTo (s.map start)).run s = (.ok (), j) ∧ j.current = some (s.map start) ∧
      (Surface.perform (Call.oval o) : Act (Sheet ℝ) _).run s = (.ok [], t) ∧
      t.parts = j.parts ++ pieces.map fun piece => piecePart image piece (s.map piece.finish) := by
  obtain ⟨j, hjoin, hcurrent, htransform⟩ := exists_joinTo (s.map start) s
  obtain ⟨t, hdraw, hparts⟩ := exists_drawPieces image pieces j
  have hp : (Surface.perform (Call.oval o) : Act (Sheet ℝ) _) = draw (ellipse o) := rfl
  have hrun : (ellipse o).run s = (.ok (), t) := by
    rw [ellipse, hpieces, Act.ofExcept_ok, pure_bind, Act.run_bind_ok (Act.run_get s),
      Act.run_bind_ok hjoin]
    cases pieces with
    | nil => exact hdraw
    | cons piece rest =>
      rw [if_neg (by simp), Act.run_bind_ok (Act.run_get j), htransform, himage, Act.ofExcept_ok,
        pure_bind, hdraw]
  refine ⟨j, t, hjoin, hcurrent, ?_, ?_⟩
  · rw [hp, draw, Act.run_bind_ok hrun]
    rfl
  · have hmap : j.map = s.map := by
      funext p
      rw [map, map, htransform]
    rw [hparts, hmap]

/-- What it means that an oval is drawn as its image, for the axes of the transformed ellipse: from
the image of its start on there is one part for each of its pieces, and read as arcs these are the
images of the arcs that the pieces ask for. These are parts of the oval itself, except where a
sweep is taken for a full turn that is none. -/
structure DrawsImage (s t : Sheet ℝ) (o : Oval ℝ) (a : Axes ℝ) (autoscale : Bool)
    (pieces : List (EndpointArc ℝ)) (arcs images : List (Arc ℝ)) : Prop where
  pieces_eq : o.pieces = .ok (o.ellipse.point o.startAngle, pieces)
  run_eq : (Surface.perform (Call.oval o) : Act (Sheet ℝ) _).run s = (.ok [], t)
  parts_eq : ∃ j, (joinTo (s.map (o.ellipse.point o.startAngle))).run s = (.ok (), j) ∧
    j.current = some (s.map (o.ellipse.point o.startAngle)) ∧
    t.parts = j.parts ++ (pieces.map (carried s.transform a)).map EndpointArc.part
  arcs_eq : toArcs autoscale (o.ellipse.point o.startAngle) pieces = .ok arcs
  images_eq : toArcs autoscale (s.map (o.ellipse.point o.startAngle))
    (pieces.map (carried s.transform a)) = .ok images
  imageOf : List.Forall₂ (Arc.ImageOf s.transform) arcs images
  retraced : o.sweep ≠ 0 → |o.sweep| = fullTurn ∨ ¬ isClose |o.sweep| fullTurn = true →
    o.Retraced autoscale (o.ellipse.point o.startAngle) pieces arcs

/-- Under a transform that is no mere shift and keeps the ellipse from being flat, the ellipse with
the singular values for radii is the image of the ellipse, and every arc that is drawn is the image
of the arc of its piece. The sense of rotation is turned round exactly if orientation is
reversed. -/
theorem draws_image_of_oval (s : Sheet ℝ) (o : Oval ℝ) (autoscale : Bool)
    (hx : 0 < o.ellipse.radii.x) (hy : 0 < o.ellipse.radii.y)
    (hplain : s.transform.isNearlyShift = false)
    (haxes : IsAxes (s.transform.onAxes o.ellipse.radii o.ellipse.rotation)
      (HasAxes.axes (s.transform.onAxes o.ellipse.radii o.ellipse.rotation)))
    (hminor : place 8 <
      (HasAxes.axes (s.transform.onAxes o.ellipse.radii o.ellipse.rotation)).minor) :
    let a := HasAxes.axes (s.transform.onAxes o.ellipse.radii o.ellipse.rotation)
    s.map '' Set.range o.ellipse.point = Set.range (s.transform.imageEllipse o.ellipse a).point ∧
      (s.transform.reverses = true ↔
        s.transform.a * s.transform.d - s.transform.b * s.transform.c < 0) ∧
      ∃ t pieces arcs images, s.DrawsImage t o a autoscale pieces arcs images := by
  intro a
  have hpos : 0 < a.minor := (Affine.place_pos 8).trans hminor
  obtain ⟨σ, c, hc⟩ := Affine.exists_carries hx hy haxes hpos
  obtain ⟨pieces, hpieces, hfit⟩ := Oval.exists_allFit_pieces hx hy
  obtain ⟨arcs, images, harcs, himages, hof⟩ := toArcs_carried hx hy haxes hpos hfit autoscale
  obtain ⟨j, t, hjoin, hcurrent, hrun, hparts⟩ :=
    s.exists_run_oval hpieces (Affine.ellipseImage?_of_axes hplain hminor)
  refine ⟨hc.image_range, s.transform.reverses_real, t, pieces, arcs, images,
    hpieces, hrun, ⟨j, hjoin, hcurrent, ?_⟩, harcs, himages, hof, fun h0 hturn => ?_⟩
  · rw [hparts, List.map_map]
    rfl
  · exact Oval.retraced_of_pieces (Oval.exists_retraced hx hy h0 hturn autoscale) hpieces harcs

omit [HasAxes ℝ] in
theorem draws_image_of_mirrored_quarter :
    letI := exactAxes
    let m : Affine ℝ := ⟨2, 0, 0, -1, 0, 0⟩
    let s : Sheet ℝ := { Sheet.default "drawing.svg" with transform := m }
    let o : Oval ℝ := ⟨⟨⟨3, 4⟩, ⟨1, 1⟩, 0⟩, 0, Real.pi / 2, false⟩
    m.isNearlyShift = false ∧ m.reverses = true ∧ ∃ t pieces arcs images,
      s.DrawsImage t o (HasAxes.axes (m.onAxes ⟨1, 1⟩ 0)) true pieces arcs images := by
  let _ : HasAxes ℝ := exactAxes
  intro m s o
  have hplain : m.isNearlyShift = false := by
    norm_num [Affine.isNearlyShift, real_place, m, ← Bool.not_eq_true]
  have hmatrix : m.onAxes ⟨1, 1⟩ 0 = ⟨2, 0, 0, -1⟩ := by simp [Affine.onAxes, m]
  have hturned : Matrix2.turned ⟨2, 0, 0, -1⟩ = ((1 / 2 : ℝ) : ℂ) := by
    apply Complex.ext <;> norm_num [Matrix2.turned]
  have hreflected : Matrix2.reflected ⟨2, 0, 0, -1⟩ = ((3 / 2 : ℝ) : ℂ) := by
    apply Complex.ext <;> norm_num [Matrix2.reflected]
  have hminor : place 8 < (HasAxes.axes (m.onAxes ⟨1, 1⟩ 0)).minor := by
    rw [hmatrix, real_place]
    change _ < |‖Matrix2.turned ⟨2, 0, 0, -1⟩‖ - ‖Matrix2.reflected ⟨2, 0, 0, -1⟩‖|
    rw [hturned, hreflected, Complex.norm_real, Complex.norm_real]
    norm_num
  have hpos : (0 : ℝ) < 1 := one_pos
  obtain ⟨-, hreverses, hdraws⟩ :=
    s.draws_image_of_oval o true hpos hpos hplain (isAxes_exactAxes _) hminor
  exact ⟨hplain, hreverses.mpr (by norm_num [s, m]), hdraws⟩

end Sheet

end Linework
