import Linework.Proofs.Diagnostics

/-!
# Painting leaves alone what is there

A painter is handed a drawing with anything in it, and adds to it. What it adds
has nothing to do with what it found: it would have added the same to a blank
sheet, and would have failed there with the same fault. The path it found is the
path it leaves behind, and the one use made of it is that reports begin with it.

All of this is one law. Drawings can be put on one another (`Drawing.onto`), and
a step of painting is *framed* if it makes no difference whether a drawing is put
on another before the step or after it. Steps that only add are framed, steps one
after another are, and so is the step into an entry. The last of these is where
the path matters: taking off the index again takes off the right one only if the
step in between left the path as it was, a step that failed no less than one that
did not.

Of the scopes open around the commands it matters only whether there are any
(`Paint.commands_congr`), so the count of them may as well have stopped. Both
together are `Paint.commands_frame`. It asks nothing of the settings, and nothing of
how the path on entry and the count of scopes fit together.
-/

namespace Linework

/-! ## One drawing on another -/

namespace Drawing

/-- A report about something below where the path of a drawing leads. -/
def located (d : Drawing) (r : Diagnostic) : Diagnostic := r.moved (d.path.reverse ++ ·)

/-- **A drawing put on another.** What is in the upper one comes later, and where
it says that something is, it says so from where the path of the lower one leads. -/
def onto (upper lower : Drawing) : Drawing where
  primitives := lower.primitives ++ upper.primitives
  diagnostics := lower.diagnostics ++ upper.diagnostics.map lower.located
  path := upper.path ++ lower.path

theorem toList_primitives_onto (upper lower : Drawing) :
    (upper.onto lower).primitives.toList =
      lower.primitives.toList ++ upper.primitives.toList :=
  Array.toList_append

theorem toList_diagnostics_onto (upper lower : Drawing) :
    (upper.onto lower).diagnostics.toList =
      lower.diagnostics.toList ++ upper.diagnostics.toList.map lower.located := by
  rw [onto, Array.toList_append, Array.toList_map]

@[simp] theorem blank_onto (d : Drawing) : blank.onto d = d := by
  simp [onto, blank]

/-- A path that goes on below another one. -/
theorem located_onto (upper lower : Drawing) (r : Diagnostic) :
    (upper.onto lower).located r = lower.located (upper.located r) := by
  simp [located, onto, Diagnostic.moved]

/-- More is added to the upper of two drawings. -/
theorem extended_onto (upper lower : Drawing) (ps : List (Primitive Float32))
    (rs : List Diagnostic) :
    (upper.onto lower).extended ps (rs.map (upper.onto lower).located) =
      (upper.extended ps (rs.map upper.located)).onto lower := by
  rw [mk.injEq]
  refine ⟨Array.toList_inj.1 ?_, Array.toList_inj.1 ?_, rfl⟩
  · simp [toList_primitives_onto, extended]
  · simp [toList_diagnostics_onto, located_onto, extended]

/-- A drawing whose path leads one entry further. -/
def entered (d : Drawing) (i : Nat) : Drawing := { d with path := i :: d.path }

/-- A drawing whose path leads one entry less far. -/
def exited (d : Drawing) : Drawing := { d with path := d.path.tail }

theorem entered_onto (upper lower : Drawing) (i : Nat) :
    (upper.onto lower).entered i = (upper.entered i).onto lower := rfl

/-- The index that is taken off is the upper drawing's, if that has one. -/
theorem exited_onto {upper : Drawing} (h : upper.path ≠ []) (lower : Drawing) :
    (upper.onto lower).exited = upper.exited.onto lower := by
  rw [exited, exited, onto, onto, mk.injEq]
  exact ⟨rfl, rfl, List.tail_append_of_ne_nil h⟩

end Drawing

namespace Paint

/-! ## Framed steps -/

/-- **A framed step of painting.** What lies below a drawing is neither changed by
the step nor of any consequence to it, whether it fails or not. -/
structure Framed (step : Paint Unit) : Prop where
  /-- The path is as it was. -/
  path_eq : ∀ d : Drawing, (step d).2.path = d.path
  /-- The step may be taken before the drawing is put on another or after it. -/
  onto_eq : ∀ upper lower : Drawing,
    step (upper.onto lower) = ((step upper).1, (step upper).2.onto lower)

/-- A step that always comes to the same result and always adds the same, reports
being about places below the current one. -/
theorem Framed.of_extended {step : Paint Unit} (result : Except PolygonFault Unit)
    (ps : List (Primitive Float32)) (rs : List Diagnostic)
    (h : ∀ d : Drawing, step d = (result, d.extended ps (rs.map d.located))) : Framed step where
  path_eq d := by rw [h d, Drawing.extended_path]
  onto_eq upper lower := by rw [h, h, Drawing.extended_onto]

/-- A step that adds nothing. -/
theorem Framed.of_unchanged {step : Paint Unit} (result : Except PolygonFault Unit)
    (h : ∀ d : Drawing, step d = (result, d)) : Framed step := by
  refine .of_extended result [] [] fun d => ?_
  rw [h d, List.map_nil, Drawing.extended_nil]

/-- One step after another. -/
theorem Framed.bind {x y : Paint Unit} (hx : Framed x) (hy : Framed y) :
    Framed (x >>= fun _ => y) where
  path_eq d := by
    have hpath := hx.path_eq d
    rw [bind_apply]
    generalize x d = painted at hpath ⊢
    rcases painted with ⟨_ | _, d'⟩
    · exact hpath
    · exact (hy.path_eq d').trans hpath
  onto_eq upper lower := by
    rw [bind_apply, bind_apply, hx.onto_eq]
    rcases x upper with ⟨_ | _, upper'⟩
    · rfl
    · exact hy.onto_eq upper' lower

theorem entry_apply (i : Nat) (step : Paint Unit) (d : Drawing) :
    entry i step d = ((step (d.entered i)).1, (step (d.entered i)).2.exited) := rfl

/-- The step into an entry. Its index is on the path of the upper drawing all the
while, so that is where it is taken off. -/
theorem Framed.entry {step : Paint Unit} (h : Framed step) (i : Nat) :
    Framed (entry i step) where
  path_eq d := by
    show (step (d.entered i)).2.path.tail = d.path
    rw [h.path_eq]
    rfl
  onto_eq upper lower := by
    have hpath : (step (upper.entered i)).2.path ≠ [] := by
      rw [h.path_eq]
      exact List.cons_ne_nil i upper.path
    rw [entry_apply, entry_apply, Drawing.entered_onto, h.onto_eq, Drawing.exited_onto hpath]

/-! ## The painter is framed -/

section

variable (settings : Settings)

theorem framed_path (depth : GlowDepth) (kind : PathKind) (color : UInt32) (g : Geometry) :
    Framed (path settings depth kind color g.topology g.vertices) :=
  .of_extended (.ok ()) _ [] fun d => path_eq settings depth color d kind g

/-- A polygon fails before anything of it is stroked, or does not fail. -/
theorem framed_polygon (depth : GlowDepth) (color : UInt32) (vertices : List (Point Float32)) :
    Framed (polygon settings depth color vertices) := by
  by_cases hvertices : vertices = []
  · refine .of_unchanged (.error .noVertices) fun d => ?_
    rw [polygon_eq, if_pos hvertices]
  · refine .of_extended (.ok ()) ((Geometry.closed vertices).stroked
      (settings.glow.strokesWithin depth.isOpen .outline color)) [] fun d => ?_
    rw [polygon_eq, if_neg hvertices]
    rfl

theorem framed_skip (c : Command) (message : String) : Framed (skip c message) := by
  -- the report of a command that stands just where the path leads
  refine .of_extended (.ok ()) [] [⟨[], c.kind, message⟩] fun d => ?_
  have hlocated : d.located ⟨[], c.kind, message⟩ = ⟨d.path.reverse, c.kind, message⟩ := by
    rw [Drawing.located, Diagnostic.moved, List.append_nil]
  rw [List.map_singleton, hlocated]
  rfl

mutual

/-- Painting a command is framed, whatever the settings and the scopes around it. -/
theorem framed_command (depth : GlowDepth) : ∀ c : Command, Framed (command settings depth c)
  | .line start stop color => by
    rw [command]
    exact framed_path settings depth .line color (.segment start stop)
  | .rect pos size color => by
    rw [command]
    exact .of_extended (.ok ()) _ [] fun d => forM_path_eq settings depth color d (boxEdges pos size)
  | .polygon form color => by
    rw [command]
    -- a regular polygon without sides fails already, before there is an outline
    cases form.vertices with
    | error fault => exact .of_unchanged (.error fault) fun d => rfl
    | ok vertices => exact framed_polygon settings depth color vertices
  | .circle center radius color => by
    rw [command]
    -- that the settings give it segments is not known here, nor needed
    exact framed_polygon settings depth color _
  | .ellipse center radii color => by
    rw [command]
    exact framed_path settings depth .outline color ⟨.lineLoop, _⟩
  | .glow children => by
    rw [command]
    exact framed_commands depth.deeper 0 children
  | .unknown => by
    rw [command]
    exact framed_skip .unknown _

/-- So is painting commands, up to the first fault among them. -/
theorem framed_commands (depth : GlowDepth) :
    ∀ (i : Nat) (cs : List Command), Framed (commands settings depth i cs)
  | i, [] => by
    rw [commands]
    exact .of_unchanged (.ok ()) fun d => rfl
  | i, c :: cs => by
    rw [commands]
    exact ((framed_command depth c).entry i).bind (framed_commands depth (i + 1) cs)

end

end

/-! ## Scopes count by whether there are any -/

section

variable {settings : Settings}

theorem path_congr {depth depth' : GlowDepth} (h : depth.isOpen = depth'.isOpen)
    (kind : PathKind) (color : UInt32) (topology : Topology) (vertices : List (Point Float32)) :
    path settings depth kind color topology vertices =
      path settings depth' kind color topology vertices := by
  rw [path, path, Glow.strokes_eq_strokesWithin, Glow.strokes_eq_strokesWithin, h]

theorem polygon_congr {depth depth' : GlowDepth} (h : depth.isOpen = depth'.isOpen)
    (color : UInt32) (vertices : List (Point Float32)) :
    polygon settings depth color vertices = polygon settings depth' color vertices := by
  rw [polygon, polygon]
  simp only [path_congr h]

mutual

/-- A command is painted alike at any two depths at which a scope is open, and at
any two at which none is. -/
theorem command_congr {depth depth' : GlowDepth} (h : depth.isOpen = depth'.isOpen) :
    ∀ c : Command, command settings depth c = command settings depth' c
  | .line start stop color => by
    rw [command, command, path_congr h]
  | .rect pos size color => by
    rw [command, command]
    simp only [path_congr h]
  | .polygon form color => by
    rw [command, command]
    simp only [polygon_congr h]
  | .circle center radius color => by
    rw [command, command, polygon_congr h]
  | .ellipse center radii color => by
    rw [command, command, path_congr h]
  | .glow children => by
    rw [command, command]
    have hdeeper : depth.deeper.isOpen = depth'.deeper.isOpen := by
      rw [GlowDepth.isOpen_deeper, GlowDepth.isOpen_deeper]
    exact commands_congr hdeeper 0 children
  | .unknown => by
    rw [command, command]

/-- So are commands. The scopes inside them are open at both depths. -/
theorem commands_congr {depth depth' : GlowDepth} (h : depth.isOpen = depth'.isOpen) :
    ∀ (i : Nat) (cs : List Command), commands settings depth i cs = commands settings depth' i cs
  | i, [] => by
    rw [commands, commands]
  | i, c :: cs => by
    rw [commands, commands, command_congr h c, commands_congr h (i + 1) cs]

end

end

/-! ## The law -/

/-- **The frame law of painting.** Whatever is in a drawing, commands are painted on
it as on a blank one. They come to the same result; the same primitives are added
behind those that are there; the same reports are added behind those that are
there, about places that are below where the drawing's path leads; and that path is
as it was. A failure is no exception: what was added before it stays. Of the scopes
around the commands it matters only that there are some, so with any two positive
counts, the greatest there is among them, everything is the same. -/
theorem commands_frame (settings : Settings) (i : Nat) (cs : List Command) :
    (∀ (depth : GlowDepth) (d : Drawing),
      let painted := commands settings depth i cs d
      let alone := commands settings depth i cs .blank
      painted.2.path = d.path ∧ painted.1 = alone.1 ∧
        painted.2.primitives.toList = d.primitives.toList ++ alone.2.primitives.toList ∧
        painted.2.diagnostics.toList = d.diagnostics.toList ++
          alone.2.diagnostics.toList.map fun r => { r with path := d.path.reverse ++ r.path }) ∧
    ∀ depth depth' : GlowDepth, 0 < depth.count → 0 < depth'.count →
      ∀ d : Drawing, commands settings depth i cs d = commands settings depth' i cs d := by
  refine ⟨?_, ?_⟩
  · intro depth d painted alone
    -- any drawing is a blank one put on it
    have hframed := framed_commands settings depth i cs
    have hpainted : painted = (alone.1, alone.2.onto d) := by
      have honto := hframed.onto_eq .blank d
      rwa [Drawing.blank_onto] at honto
    refine ⟨hframed.path_eq d, ?_⟩
    rw [hpainted]
    exact ⟨rfl, Drawing.toList_primitives_onto alone.2 d, Drawing.toList_diagnostics_onto alone.2 d⟩
  · intro depth depth' hdepth hdepth' d
    have hopen : depth.isOpen = depth'.isOpen := by
      rw [GlowDepth.isOpen, GlowDepth.isOpen, decide_eq_true hdepth, decide_eq_true hdepth']
    rw [commands_congr hopen]

/-- A polygon without a vertex, in a scope inside as many as are counted, stops
painting in the middle of a drawing. -/
theorem commands_frame_at_greatest_depth :
    let cs : List Command := [.line ⟨0, 0⟩ ⟨1, 0⟩ 0xff0000ff,
      .glow [.unknown, .polygon (.points []) 0xff], .unknown]
    let d : Drawing :=
      ⟨#[⟨1.5, .ofPacked 0xff, .segments, [⟨0, 0⟩, ⟨0, 1⟩]⟩], #[.unknownAt [3]], [2, 5]⟩
    let painted := commands .default ⟨0xffffffff⟩ 0 cs d
    painted = commands .default ⟨1⟩ 0 cs d ∧
      painted.1 = .error .noVertices ∧ painted.2.path = [2, 5] ∧
      painted.2.primitives.toList.map (·.width) = [1.5, 3.0, 2.0, 0.5] ∧
      painted.2.diagnostics.toList = [.unknownAt [3], .unknownAt [5, 2, 1, 0]] := by
  intro cs d painted
  obtain ⟨hframe, hdepths⟩ := commands_frame .default 0 cs
  obtain ⟨hpath, hresult, hprimitives, hdiagnostics⟩ := hframe ⟨0xffffffff⟩ d
  refine ⟨hdepths _ _ (by decide) (by decide) d, hresult, hpath, ?_, ?_⟩
  · rw [hprimitives]
    rfl
  · rw [hdiagnostics]
    rfl

end Paint

end Linework
