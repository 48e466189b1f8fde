import Linework.Failure
import Linework.Proofs.Json.Nesting
import Linework.Proofs.SceneGrammar

/-!
# Scenes read back

A scene that is written and read again is the same scene, or it is not read at
all. There are two reasons for the second. A number that is infinite or not a
number has no text of its own: it is written as the absent value, which is no
number, so the command it belongs to is refused. And every glow takes two
containers, its object and the list of its children, of which the reader opens no
more than `Json.deepest` inside one another; a scene may hold more.

Both are exact. Reading asks the grammar (`Scene.read_eq_ok_iff`), so it is enough
to know which scenes the grammar gives the written value, and it gives it the scene
itself and no other, provided its numbers are finite (`Scene.reads_document_iff`).

What is assumed is about numbers alone: a finite single comes back from its own
text (`Json.TextStable`).
-/

namespace Linework

open Json

/-! ## The numbers of a scene -/

/-- The numbers of a point. -/
def Point.singles (p : Point Float32) : List Float32 := [p.x, p.y]

/-- The numbers of the form of a polygon. -/
def PolygonForm.singles : PolygonForm → List Float32
  | .points ps => ps.flatMap Point.singles
  | .regular center radius _ rotation => center.singles ++ [radius, rotation]

namespace Command

mutual

/-- The numbers of a command, in single precision. -/
def singles : Command → List Float32
  | .line start stop _ => start.singles ++ stop.singles
  | .rect pos size _ => pos.singles ++ size.singles
  | .polygon form _ => form.singles
  | .circle center radius _ => center.singles ++ [radius]
  | .ellipse center radii _ => center.singles ++ radii.singles
  | .glow children => singlesOf children
  | .unknown => []

/-- The numbers of several commands. -/
def singlesOf : List Command → List Float32
  | [] => []
  | c :: cs => singles c ++ singlesOf cs

end

end Command

/-- The numbers of a scene. -/
def Scene.singles (s : Scene) : List Float32 := Command.singlesOf s.commands

/-- All numbers are finite. -/
def AllFinite (xs : List Float32) : Prop := ∀ x ∈ xs, x.isFinite = true

/-- All finite numbers come back from their texts. -/
def AllStable (xs : List Float32) : Prop := ∀ x ∈ xs, x.isFinite = true → TextStable x

theorem allFinite_nil : AllFinite [] := by
  intro x hx
  cases hx

theorem allFinite_append {xs ys : List Float32} :
    AllFinite (xs ++ ys) ↔ AllFinite xs ∧ AllFinite ys :=
  List.forall_mem_append

theorem allStable_append {xs ys : List Float32} :
    AllStable (xs ++ ys) ↔ AllStable xs ∧ AllStable ys :=
  List.forall_mem_append

/-! ## The values of fields -/

namespace Json

/-- A number comes back if it is finite, and as no other number. -/
theorem isSingle_toJson_iff {x y : Float32} (h : x.isFinite = true → TextStable x) :
    (Document.single x).toJson.IsSingle y ↔ y = x ∧ x.isFinite = true := by
  cases hx : x.isFinite with
  | true =>
    obtain ⟨n, rfl, hjson⟩ := Document.toJson_single hx (h hx)
    rw [hjson]
    constructor
    · rintro ⟨m, hm, rfl⟩
      cases hm
      exact ⟨rfl, rfl⟩
    · rintro ⟨rfl, -⟩
      exact ⟨n, rfl, rfl⟩
  | false =>
    rw [Document.toJson_not_isFinite hx]
    constructor
    · rintro ⟨m, hm, -⟩
      cases hm
    · rintro ⟨-, hfalse⟩
      cases hfalse

theorem isWord_toJson_iff {w w' : UInt32} :
    (Document.count w.toNat).toJson.IsWord w' ↔ w' = w := by
  rw [Document.toJson, IsWord]
  constructor
  · intro h
    have hnat : w.toNat = w'.toNat := by
      injection h with h
      injection h with h
      exact Int.ofNat.inj h
    exact (UInt32.toNat_inj.1 hnat).symm
  · rintro rfl
    rfl

theorem isPoint_toJson_iff {p q : Point Float32} (h : AllStable p.singles) :
    p.document.toJson.IsPoint q ↔ q = p ∧ AllFinite p.singles := by
  have hx := h p.x List.mem_cons_self
  have hy := h p.y (List.mem_cons_of_mem _ List.mem_cons_self)
  have hfinite : AllFinite p.singles ↔ p.x.isFinite = true ∧ p.y.isFinite = true := by
    simp [AllFinite, Point.singles]
  have hjson : p.document.toJson =
      .list [(Document.single p.x).toJson, (Document.single p.y).toJson] := rfl
  rw [hjson, hfinite]
  constructor
  · rintro ⟨v, w, heq, hv, hw⟩
    cases heq
    obtain ⟨hqx, hpx⟩ := (isSingle_toJson_iff hx).1 hv
    obtain ⟨hqy, hpy⟩ := (isSingle_toJson_iff hy).1 hw
    refine ⟨?_, hpx, hpy⟩
    cases p
    cases q
    cases hqx
    cases hqy
    rfl
  · rintro ⟨rfl, hpx, hpy⟩
    exact ⟨_, _, rfl, (isSingle_toJson_iff hx).2 ⟨rfl, hpx⟩, (isSingle_toJson_iff hy).2 ⟨rfl, hpy⟩⟩

theorem isPoints_toJson_iff {ps qs : List (Point Float32)}
    (h : AllStable (ps.flatMap Point.singles)) :
    (Document.list (ps.map Point.document)).toJson.IsPoints qs ↔
      qs = ps ∧ AllFinite (ps.flatMap Point.singles) := by
  have hall : List.Forall₂ IsPoint (Document.toJsons (ps.map Point.document)) qs ↔
      qs = ps ∧ AllFinite (ps.flatMap Point.singles) := by
    induction ps generalizing qs with
    | nil =>
      rw [List.map_nil, Document.toJsons, List.forall₂_nil_left_iff]
      exact ⟨fun hqs => ⟨hqs, by simp [AllFinite]⟩, fun hqs => hqs.1⟩
    | cons p ps ih =>
      rw [List.flatMap_cons, allStable_append] at h
      rw [List.map_cons, Document.toJsons, List.forall₂_cons_left_iff, List.flatMap_cons,
        allFinite_append]
      constructor
      · rintro ⟨q, qs', hq, hqs', rfl⟩
        obtain ⟨rfl, hp⟩ := (isPoint_toJson_iff h.1).1 hq
        obtain ⟨rfl, hps⟩ := (ih h.2).1 hqs'
        exact ⟨rfl, hp, hps⟩
      · rintro ⟨rfl, hp, hps⟩
        exact ⟨p, ps, (isPoint_toJson_iff h.1).2 ⟨rfl, hp⟩, (ih h.2).2 ⟨rfl, hps⟩, rfl⟩
  rw [Document.toJson]
  constructor
  · rintro ⟨items, heq, hitems⟩
    cases heq
    exact hall.1 hitems
  · intro hqs
    exact ⟨_, rfl, hall.2 hqs⟩

theorem hasField_iff {α : Type} {members : List (String × Json)} {name : String} {v : Json}
    (h : last? name members = some v) {R : Json → α → Prop} {a : α} :
    HasField members name R a ↔ R v a := by
  constructor
  · rintro ⟨w, hw, ha⟩
    rw [h] at hw
    cases hw
    exact ha
  · intro ha
    exact ⟨v, h, ha⟩

theorem not_hasField {α : Type} {members : List (String × Json)} {name : String}
    (h : last? name members = none) {R : Json → α → Prop} (a : α) :
    ¬ HasField members name R a := by
  rintro ⟨v, hv, -⟩
  rw [h] at hv
  cases hv

end Json

/-! ## The values of commands -/

namespace PolygonForm

variable {members : List (String × Json)} {form : PolygonForm}

/-- Vertices come back as vertices, since a regular form is not there to be read. -/
theorem reads_points_iff {ps : List (Point Float32)} (h : AllStable (PolygonForm.points ps).singles)
    (hpoints : last? "points" members = some (Document.list (ps.map Point.document)).toJson)
    (hcenter : last? "center" members = none) :
    form.Reads members ↔ form = .points ps ∧ AllFinite (PolygonForm.points ps).singles := by
  constructor
  · intro hreads
    cases hreads with
    | points hps =>
      obtain ⟨rfl, hfinite⟩ := (isPoints_toJson_iff h).1 ((hasField_iff hpoints).1 hps)
      exact ⟨rfl, hfinite⟩
    | regular _ hc => exact absurd hc (not_hasField hcenter _)
  · rintro ⟨rfl, hfinite⟩
    exact .points ((hasField_iff hpoints).2 ((isPoints_toJson_iff h).2 ⟨rfl, hfinite⟩))

/-- A regular form comes back as one, since no vertices are there to be read. -/
theorem reads_regular_iff {center : Point Float32} {radius : Float32} {sides : UInt32}
    {rotation : Float32} (h : AllStable (PolygonForm.regular center radius sides rotation).singles)
    (hpoints : last? "points" members = none)
    (hcenter : last? "center" members = some center.document.toJson)
    (hradius : last? "radius" members = some (Document.single radius).toJson)
    (hsides : last? "sides" members = some (Document.count sides.toNat).toJson)
    (hrotation : last? "rotation" members = some (Document.single rotation).toJson) :
    form.Reads members ↔ form = .regular center radius sides rotation ∧
      AllFinite (PolygonForm.regular center radius sides rotation).singles := by
  obtain ⟨hstable, hstable'⟩ := allStable_append.1 h
  have hr := hstable' radius List.mem_cons_self
  have ht := hstable' rotation (List.mem_cons_of_mem _ List.mem_cons_self)
  have hfinite : AllFinite (PolygonForm.regular center radius sides rotation).singles ↔
      AllFinite center.singles ∧ radius.isFinite = true ∧ rotation.isFinite = true := by
    rw [singles, allFinite_append]
    simp [AllFinite]
  rw [hfinite]
  constructor
  · intro hreads
    cases hreads with
    | points hps => exact absurd hps (not_hasField hpoints _)
    | regular _ hc hradius' hsides' hrotation' =>
      obtain ⟨rfl, hc⟩ := (isPoint_toJson_iff hstable).1 ((hasField_iff hcenter).1 hc)
      obtain ⟨rfl, hr⟩ := (isSingle_toJson_iff hr).1 ((hasField_iff hradius).1 hradius')
      obtain rfl := isWord_toJson_iff.1 ((hasField_iff hsides).1 hsides')
      rcases hrotation' with hrotation' | ⟨hnone, -⟩
      · obtain ⟨rfl, ht⟩ := (isSingle_toJson_iff ht).1 ((hasField_iff hrotation).1 hrotation')
        exact ⟨rfl, hc, hr, ht⟩
      · rw [hrotation] at hnone
        cases hnone
  · rintro ⟨rfl, hc, hr', ht'⟩
    refine .regular (not_hasField hpoints) ((hasField_iff hcenter).2 ?_)
      ((hasField_iff hradius).2 ?_) ((hasField_iff hsides).2 ?_)
      (.inl ((hasField_iff hrotation).2 ?_))
    · exact (isPoint_toJson_iff hstable).2 ⟨rfl, hc⟩
    · exact (isSingle_toJson_iff hr).2 ⟨rfl, hr'⟩
    · exact isWord_toJson_iff.2 rfl
    · exact (isSingle_toJson_iff ht).2 ⟨rfl, ht'⟩

end PolygonForm

namespace Command

variable {members : List (String × Json)} {c : Command}

/-- A shape with two fields and a colour comes back if both fields do. -/
theorem fields_iff {α β : Type} {R : Json → α → Prop} {S : Json → β → Prop} {n n' : String}
    {a : α} {b : β} {color : UInt32} {F G : Prop} {make : α → β → UInt32 → Command}
    (hR : ∀ a', HasField members n R a' ↔ a' = a ∧ F)
    (hS : ∀ b', HasField members n' S b' ↔ b' = b ∧ G)
    (hcolor : last? "color" members = some (Document.count color.toNat).toJson) :
    (∃ a' b' w, HasField members n R a' ∧ HasField members n' S b' ∧
      HasField members "color" IsWord w ∧ c = make a' b' w) ↔ c = make a b color ∧ F ∧ G := by
  constructor
  · rintro ⟨a', b', w, ha, hb, hw, rfl⟩
    obtain ⟨rfl, hF⟩ := (hR a').1 ha
    obtain ⟨rfl, hG⟩ := (hS b').1 hb
    obtain rfl := isWord_toJson_iff.1 ((hasField_iff hcolor).1 hw)
    exact ⟨rfl, hF, hG⟩
  · rintro ⟨rfl, hF, hG⟩
    exact ⟨a, b, color, (hR a).2 ⟨rfl, hF⟩, (hS b).2 ⟨rfl, hG⟩,
      (hasField_iff hcolor).2 (isWord_toJson_iff.2 rfl), rfl⟩

theorem hasField_isPoint_iff {p : Point Float32} {name : String}
    (h : last? name members = some p.document.toJson) (hp : AllStable p.singles)
    (q : Point Float32) : HasField members name IsPoint q ↔ q = p ∧ AllFinite p.singles :=
  (hasField_iff h).trans (isPoint_toJson_iff hp)

theorem hasField_isSingle_iff {x : Float32} {name : String}
    (h : last? name members = some (Document.single x).toJson)
    (hx : x.isFinite = true → TextStable x) (y : Float32) :
    HasField members name IsSingle y ↔ y = x ∧ AllFinite [x] := by
  rw [hasField_iff h, isSingle_toJson_iff hx]
  simp [AllFinite]

/-- A polygon comes back if its form does. -/
theorem polygonOf_iff {form : PolygonForm} {color : UInt32} {F : Prop}
    (hform : ∀ {form' : PolygonForm}, form'.Reads members ↔ form' = form ∧ F)
    (hcolor : last? "color" members = some (Document.count color.toNat).toJson) :
    polygonOf members = .ok c ↔ c = .polygon form color ∧ F := by
  rw [polygonOf_eq_ok_iff]
  constructor
  · rintro ⟨form', w, hw, hreads, rfl⟩
    obtain ⟨rfl, hF⟩ := hform.1 hreads
    obtain rfl := isWord_toJson_iff.1 ((hasField_iff hcolor).1 hw)
    exact ⟨rfl, hF⟩
  · rintro ⟨rfl, hF⟩
    exact ⟨form, color, (hasField_iff hcolor).2 (isWord_toJson_iff.2 rfl), hform.2 ⟨rfl, hF⟩, rfl⟩

mutual

/-- **A written command stands for itself** if its numbers are finite, and for no
command if they are not. -/
theorem ofJson_document_iff : ∀ (c : Command) {c' : Command}, AllStable c.singles →
    (ofJson c.document.toJson = .ok c' ↔ c' = c ∧ AllFinite c.singles)
  | .line start stop color, c', h => by
    obtain ⟨hstart, hstop⟩ := allStable_append.1 h
    rw [singles, allFinite_append]
    show lineOf _ = _ ↔ _
    rw [lineOf_eq_ok_iff]
    exact fields_iff (hasField_isPoint_iff rfl hstart) (hasField_isPoint_iff rfl hstop) rfl
  | .rect pos size color, c', h => by
    obtain ⟨hpos, hsize⟩ := allStable_append.1 h
    rw [singles, allFinite_append]
    show rectOf _ = _ ↔ _
    rw [rectOf_eq_ok_iff]
    exact fields_iff (hasField_isPoint_iff rfl hpos) (hasField_isPoint_iff rfl hsize) rfl
  | .polygon (.points ps) color, c', h =>
    polygonOf_iff (PolygonForm.reads_points_iff h rfl rfl) rfl
  | .polygon (.regular center radius sides rotation) color, c', h =>
    polygonOf_iff (PolygonForm.reads_regular_iff h rfl rfl rfl rfl rfl) rfl
  | .circle center radius color, c', h => by
    obtain ⟨hcenter, hradius⟩ := allStable_append.1 h
    rw [singles, allFinite_append]
    show circleOf _ = _ ↔ _
    rw [circleOf_eq_ok_iff]
    exact fields_iff (hasField_isPoint_iff rfl hcenter)
      (hasField_isSingle_iff rfl (hradius radius List.mem_cons_self)) rfl
  | .ellipse center radii color, c', h => by
    obtain ⟨hcenter, hradii⟩ := allStable_append.1 h
    rw [singles, allFinite_append]
    show ellipseOf _ = _ ↔ _
    rw [ellipseOf_eq_ok_iff]
    exact fields_iff (hasField_isPoint_iff rfl hcenter) (hasField_isPoint_iff rfl hradii) rfl
  | .glow children, c', h => by
    -- the scope adds no number of its own, so it stands or falls with its children
    have hread : ofJson (Command.glow children).document.toJson =
      (do return .glow (← ofItems (Document.toJsons (documents children)))) := rfl
    rw [hread, singles, bind_eq_ok_iff]
    constructor
    · rintro ⟨cs, hcs, hglow⟩
      cases hglow
      obtain ⟨rfl, hfinite⟩ := (ofItems_documents_iff children h).1 hcs
      exact ⟨rfl, hfinite⟩
    · rintro ⟨rfl, hfinite⟩
      exact ⟨children, (ofItems_documents_iff children h).2 ⟨rfl, hfinite⟩, rfl⟩
  | .unknown, c', _ => by
    show Except.ok Command.unknown = .ok c' ↔ _
    rw [Except.ok.injEq, eq_comm]
    exact ⟨fun hc => ⟨hc, allFinite_nil⟩, fun hc => hc.1⟩

theorem ofItems_documents_iff : ∀ (cs : List Command) {cs' : List Command},
    AllStable (singlesOf cs) →
    (ofItems (Document.toJsons (documents cs)) = .ok cs' ↔ cs' = cs ∧ AllFinite (singlesOf cs))
  | [], cs', _ => by
    show Except.ok [] = .ok cs' ↔ _
    rw [Except.ok.injEq, eq_comm]
    exact ⟨fun hcs => ⟨hcs, allFinite_nil⟩, fun hcs => hcs.1⟩
  | c :: cs, cs', h => by
    rw [singlesOf, allStable_append] at h
    rw [documents, Document.toJsons, ofItems, singlesOf, allFinite_append, bind_eq_ok_iff]
    constructor
    · rintro ⟨d, hd, hmore⟩
      obtain ⟨ds, hds, hmore⟩ := bind_eq_ok_iff.1 hmore
      cases hmore
      obtain ⟨rfl, hc⟩ := (ofJson_document_iff c h.1).1 hd
      obtain ⟨rfl, hcs⟩ := (ofItems_documents_iff cs h.2).1 hds
      exact ⟨rfl, hc, hcs⟩
    · rintro ⟨rfl, hc, hcs⟩
      exact ⟨c, (ofJson_document_iff c h.1).2 ⟨rfl, hc⟩, bind_eq_ok_iff.2
        ⟨cs, (ofItems_documents_iff cs h.2).2 ⟨rfl, hcs⟩, rfl⟩⟩

end

end Command

/-! ## The texts of commands -/

namespace Json.Document

theorem legible_word (w : UInt32) : Legible (.count w.toNat) := by
  refine .count ?_
  have := w.toNat_lt
  unfold greatestCount
  omega

theorem legible_point {p : Point Float32} (h : AllStable p.singles) : p.document.Legible := by
  refine .list (List.forall_mem_cons.2 ⟨.single (h p.x List.mem_cons_self),
    List.forall_mem_singleton.2 (.single (h p.y ?_))⟩)
  exact List.mem_cons_of_mem _ List.mem_cons_self

end Json.Document

open Json.Document in
/-- The form of a polygon is written legibly. -/
theorem PolygonForm.legible_members {form : PolygonForm} (h : AllStable form.singles) :
    ∀ m ∈ form.members, m.2.Legible := by
  cases form with
  | points ps =>
    refine List.forall_mem_singleton.2 (.list fun d hd => ?_)
    obtain ⟨p, hp, rfl⟩ := List.mem_map.1 hd
    exact legible_point fun x hx => h x (List.mem_flatMap.2 ⟨p, hp, hx⟩)
  | regular center radius sides rotation =>
    obtain ⟨hcenter, hmore⟩ := allStable_append.1 h
    obtain ⟨hradius, hrotation⟩ := List.forall_mem_cons.1 hmore
    refine List.forall_mem_cons.2 ⟨legible_point hcenter, List.forall_mem_cons.2 ⟨.single hradius,
      List.forall_mem_cons.2 ⟨legible_word sides, List.forall_mem_singleton.2 (.single ?_)⟩⟩⟩
    exact List.forall_mem_singleton.1 hrotation

namespace Command

open Json.Document

/-- What a shape of some kind with two fields and a colour is written as. -/
theorem legible_fields {kind n n' : String} {d d' : Document} (hd : d.Legible) (hd' : d'.Legible)
    (color : UInt32) :
    (Document.object [("kind", .text kind), (n, d), (n', d'),
      ("color", .count color.toNat)]).Legible :=
  .object (List.forall_mem_cons.2 ⟨.text kind, List.forall_mem_cons.2 ⟨hd,
    List.forall_mem_cons.2 ⟨hd', List.forall_mem_singleton.2 (legible_word color)⟩⟩⟩)

mutual

/-- Commands whose finite numbers come back are written legibly. -/
theorem legible_document : ∀ {c : Command}, AllStable c.singles → c.document.Legible
  | .line start stop color, h => by
    obtain ⟨hstart, hstop⟩ := allStable_append.1 h
    rw [document]
    exact legible_fields (legible_point hstart) (legible_point hstop) color
  | .rect pos size color, h => by
    obtain ⟨hpos, hsize⟩ := allStable_append.1 h
    rw [document]
    exact legible_fields (legible_point hpos) (legible_point hsize) color
  | .polygon form color, h => by
    rw [document]
    refine .object (List.forall_mem_append.2 ⟨List.forall_mem_cons.2 ⟨.text _, ?_⟩, ?_⟩)
    · exact PolygonForm.legible_members h
    · exact List.forall_mem_singleton.2 (legible_word color)
  | .circle center radius color, h => by
    obtain ⟨hcenter, hradius⟩ := allStable_append.1 h
    rw [document]
    exact legible_fields (legible_point hcenter) (.single (hradius radius List.mem_cons_self)) color
  | .ellipse center radii color, h => by
    obtain ⟨hcenter, hradii⟩ := allStable_append.1 h
    rw [document]
    exact legible_fields (legible_point hcenter) (legible_point hradii) color
  | .glow children, h => by
    rw [document]
    exact .object (List.forall_mem_cons.2 ⟨.text _,
      List.forall_mem_singleton.2 (.list (legible_documents h))⟩)
  | .unknown, _ => by
    rw [document]
    exact .object (List.forall_mem_singleton.2 (.text _))

theorem legible_documents : ∀ {cs : List Command}, AllStable (singlesOf cs) →
    ∀ d ∈ documents cs, d.Legible
  | [], _ => by
    intro d hd
    cases hd
  | c :: cs, h => by
    rw [singlesOf, allStable_append] at h
    rw [documents]
    exact List.forall_mem_cons.2 ⟨legible_document h.1, legible_documents h.2⟩

end

end Command

namespace Scene

theorem legible_document {s : Scene} (h : AllStable s.singles) : s.document.Legible :=
  .object (List.forall_mem_singleton.2 (.list (Command.legible_documents h)))

/-- **A written scene stands for itself** if its numbers are finite, and for no
scene if they are not. -/
theorem reads_document_iff {s t : Scene} (h : AllStable s.singles) :
    Reads s.document.toJson t ↔ t = s ∧ AllFinite s.singles := by
  have hitems : Command.ReadsAll (Document.toJsons (Command.documents s.commands)) t.commands ↔
      t = s ∧ AllFinite s.singles := by
    rw [← Command.ofItems_eq_ok_iff, Command.ofItems_documents_iff s.commands h]
    cases t
    cases s
    simp [singles]
  have hjson : s.document.toJson =
      .object [("commands", .list (Document.toJsons (Command.documents s.commands)))] := rfl
  rw [hjson, ← hitems]
  constructor
  · intro hreads
    cases hreads with
    | keyed hall hreads =>
      obtain ⟨heq, -⟩ := List.cons.inj hall
      cases heq
      exact hreads
  · intro hreads
    exact .keyed rfl hreads

/-- Reading a written scene as a value, where no more containers than admitted stand
inside one another. -/
theorem document_value_write {s : Scene} (h : AllStable s.singles)
    (hdeep : s.document.nesting ≤ deepest) :
    Json.document value s.write = .ok s.document.toJson := by
  have hvalue : value deepest s.write = .ok (s.document.toJson, []) :=
    (Document.value_textBefore .pretty s.document 0 deepest [] (legible_document h) ends_nil).trans
      (if_pos hdeep)
  exact bind_eq_ok_iff.2 ⟨(s.document.toJson, []), hvalue, rfl⟩

/-- The first member of an object that is read has been read. -/
theorem exists_member_of_members {σ : Type} {name : Reader String}
    {member : String → σ → Reader σ} {fuel s t u : List Char} {first : Bool} {state : σ}
    {key : String} {r : σ × List Char} (h : members name member fuel first state s = .ok r)
    (hnext : nextMember first s = .ok (.entry t)) (hname : name t = .ok (key, u)) :
    ∃ r', member key state u = .ok r' := by
  cases fuel with
  | nil => cases h
  | cons _ fuel =>
    rw [members, hnext, ok_bind] at h
    dsimp only at h
    rw [hname, ok_bind] at h
    obtain ⟨r', hr', -⟩ := bind_eq_ok_iff.1 h
    exact ⟨r', hr'⟩

/-- A written scene that is read is not too deep. The reader does not go through the
value of the whole text, but it does through that of every command. -/
theorem nesting_le_of_read {s t : Scene} (h : AllStable s.singles) (hread : read s.write = .ok t) :
    s.document.nesting ≤ deepest := by
  have hlegible : (Document.list (Command.documents s.commands)).Legible :=
    .list (Command.legible_documents h)
  obtain ⟨⟨t', rest⟩, hdecode, -⟩ := bind_eq_ok_iff.1 hread
  have hkeyed : record.keyed 126 _ = .ok (t', rest) := hdecode
  obtain ⟨⟨⟨x, given⟩, rest'⟩, hmembers, -⟩ := bind_eq_ok_iff.1 hkeyed
  obtain ⟨r, hmember⟩ := exists_member_of_members hmembers
    (nextMember_true_of_entry (Document.skipBlanks_nameBefore ..)) (stringText_escaped ..)
  obtain ⟨_, hcolon, hmember⟩ := bind_eq_ok_iff.1
    (show (_ >>= _ : Except Fault _) = .ok r from hmember)
  obtain ⟨_, hfield, -⟩ := bind_eq_ok_iff.1 hmember
  obtain ⟨⟨cs, u⟩, harray, -⟩ := bind_eq_ok_iff.1 hfield
  obtain ⟨items, hvalue, -⟩ := Command.array_decode_iff.1 harray
  -- the one member is the list of commands, which stands one level in
  rw [← Except.ok.inj hcolon, Document.value_append_textBefore Spacing.pretty.isBlank_gap,
    Document.value_textBefore _ _ _ _ _ hlegible (Document.ends_membersBefore _ _ _ _ _)] at hvalue
  unfold Document.outcome at hvalue
  split at hvalue
  · next hle =>
    show max (Document.list (Command.documents s.commands)).nesting 0 + 1 ≤ 127
    omega
  · cases hvalue

/-- **Reading what was written** gives the scene itself or nothing. -/
theorem read_write_iff {s t : Scene} (h : AllStable s.singles) :
    read s.write = .ok t ↔ t = s ∧ AllFinite s.singles ∧ s.document.nesting ≤ deepest := by
  constructor
  · intro hread
    have hdeep := nesting_le_of_read h hread
    obtain ⟨rfl, hfinite⟩ := (reads_document_iff h).1
      ((read_eq_ok_iff (document_value_write h hdeep)).1 hread)
    exact ⟨rfl, hfinite, hdeep⟩
  · rintro ⟨rfl, hfinite, hdeep⟩
    exact (read_eq_ok_iff (document_value_write h hdeep)).2 ((reads_document_iff h).2 ⟨rfl, hfinite⟩)

/-- **Reloading a scene.** A scene that is written and read again is the scene it was
exactly if all its numbers are finite and the containers of its text stand at most
127 deep inside one another; otherwise its text is refused. The finite numbers are
taken to come back from their own texts. -/
theorem ofText_toText_iff (s : Scene)
    (stable : ∀ x ∈ s.singles, x.isFinite = true → TextStable x) :
    (ofText s.toText = .ok s ↔
      (∀ x ∈ s.singles, x.isFinite = true) ∧ Json.nesting s.toText.toList ≤ 127) ∧
    (ofText s.toText ≠ .ok s → ∃ fault, ofText s.toText = .error (.scene fault)) := by
  have hread : ∀ t, ofText s.toText = .ok t ↔
      t = s ∧ AllFinite s.singles ∧ Json.nesting s.toText.toList ≤ 127 := by
    intro t
    rw [ofText, toText, String.toList_ofList, mapError_eq_ok_iff, read_write_iff stable,
      show Json.nesting s.write = _ from Document.nesting_pretty s.document]
    rfl
  refine ⟨(hread s).trans (and_iff_right rfl), fun hne => ?_⟩
  cases hresult : ofText s.toText with
  | ok t =>
    obtain ⟨rfl, -⟩ := (hread t).1 hresult
    exact absurd hresult hne
  | error failure =>
    rw [ofText] at hresult
    cases hscene : read s.toText.toList with
    | ok t =>
      rw [hscene] at hresult
      cases hresult
    | error fault =>
      rw [hscene] at hresult
      cases hresult
      exact ⟨fault, rfl⟩

/-- A circle in two glows, before an entry that is no command. Its numbers are one
without a finite binary form, the negative zero and one that is written with an
exponent. -/
theorem reload_glowing_circle :
    let s : Scene := ⟨[.glow [.glow [.circle ⟨0.1, -0⟩ 1e-9 0x00ff00ff], .unknown]]⟩
    (∀ x ∈ s.singles, x.isFinite = true → TextStable x) ∧ ofText s.toText = .ok s := by
  intro s
  have hstable : ∀ x ∈ s.singles, x.isFinite = true → TextStable x := by
    have hread : ∀ x ∈ s.singles,
        (Json.document single (singleLayout.single x)).toOption = some x ∧ (x == x) = true := by
      decide +kernel
    intro x hx _
    exact ⟨x, toOption_eq_some_iff.1 (hread x hx).1, (hread x hx).2⟩
  have hdeep : Json.nesting s.toText.toList ≤ 127 := by
    rw [toText, String.toList_ofList]
    decide +kernel
  exact ⟨hstable, (ofText_toText_iff s hstable).1.2 ⟨by decide +kernel, hdeep⟩⟩

end Scene

end Linework
