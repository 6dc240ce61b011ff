import ClassText.Proofs.Frame.Merge
import ClassText.Proofs.Hierarchy.Order

/-!
# The order of frames

A value can stand for one of another type if its type is below: every type is
below `top`, null is below all references, and objects follow the order of their
classes. Frames are compared place by place.

Merging two frames gives one that is above both (`mergeFrames_spec`). No
recorded type is ever asked for as long as the frames only hold types in scope,
for then two references always have a common type.
-/

namespace ClassText

/-- The class that a type is made of. -/
def LiveType.name? : LiveType → Option String
  | .object type => type.name?
  | _ => none

/-- Does the type name a class at most that is in scope? -/
def LiveType.Fits (scope : String → Prop) (t : LiveType) : Prop :=
  ∀ name, LiveType.name? t = some name → scope name

/-- Frames of a method: so many slots for variables, and classes in scope. -/
abbrev LiveFrame.Fits (scope : String → Prop) : Nat → LiveFrame → Prop :=
  LiveFrame.Holds (LiveType.Fits scope)

namespace Hierarchy

variable {h : Hierarchy}

/-- A value of the first type can be used where one of the second type is asked for. -/
inductive Assignable (h : Hierarchy) : LiveType → LiveType → Prop
  | same {t : LiveType} : Assignable h t t
  | top {t : LiveType} : Assignable h t .top
  | null {type : RefType} : Assignable h .null (.object type)
  | object {s t : RefType} (hst : h.RefBelow s t) : Assignable h (.object s) (.object t)

theorem Assignable.trans {s t u : LiveType} (hst : h.Assignable s t) (htu : h.Assignable t u) :
    h.Assignable s u := by
  cases hst with
  | same => exact htu
  | top => cases htu <;> exact .top
  | null =>
    cases htu with
    | same => exact .null
    | top => exact .top
    | object _ => exact .null
  | object hst =>
    cases htu with
    | same => exact .object hst
    | top => exact .top
    | object htu => exact .object (hst.trans htu)

/-- The first frame is below the second one: every value of it can stand for the one there. -/
structure FrameBelow (h : Hierarchy) (frame other : LiveFrame) : Prop where
  locals : List.Forall₂ h.Assignable frame.locals other.locals
  stack : List.Forall₂ h.Assignable frame.stack other.stack

theorem forall₂_assignable_refl (types : List LiveType) :
    List.Forall₂ h.Assignable types types :=
  List.forall₂_same.mpr fun _ _ => .same

theorem forall₂_assignable_trans {s t u : List LiveType} (hst : List.Forall₂ h.Assignable s t)
    (htu : List.Forall₂ h.Assignable t u) : List.Forall₂ h.Assignable s u := by
  induction hst generalizing u with
  | nil => exact htu
  | cons hhead _ ih =>
    obtain ⟨c, cs, hc, hcs, rfl⟩ := List.forall₂_cons_left_iff.mp htu
    exact .cons (hhead.trans hc) (ih hcs)

theorem FrameBelow.refl (frame : LiveFrame) : h.FrameBelow frame frame :=
  ⟨forall₂_assignable_refl _, forall₂_assignable_refl _⟩

theorem FrameBelow.trans {e f g : LiveFrame} (hef : h.FrameBelow e f) (hfg : h.FrameBelow f g) :
    h.FrameBelow e g :=
  ⟨forall₂_assignable_trans hef.locals hfg.locals, forall₂_assignable_trans hef.stack hfg.stack⟩

end Hierarchy

namespace Ancestry

open Hierarchy

variable {a : Ancestry} {names : String → Prop}

/-! ## Merging is upwards -/

theorem mergeReferences_spec {s t : RefType} (hnames : a.hierarchy.IsRooted names)
    (hs : ∀ name, s.name? = some name → a.hierarchy.InScope names name)
    (ht : ∀ name, t.name? = some name → a.hierarchy.InScope names name)
    (recorded : Option LiveType) :
    (∀ name, (a.mergeReferences s t recorded).name? = some name →
      a.hierarchy.InScope names name) ∧
      a.hierarchy.RefBelow s (a.mergeReferences s t recorded) ∧
        a.hierarchy.RefBelow t (a.mergeReferences s t recorded) := by
  obtain ⟨u, hu, hspec⟩ := commonRefType?_spec hnames hs ht
  unfold mergeReferences
  simp only [hu]
  exact hspec

theorem merge_spec {t u : LiveType} (hnames : a.hierarchy.IsRooted names)
    (ht : LiveType.Fits (a.hierarchy.InScope names) t)
    (hu : LiveType.Fits (a.hierarchy.InScope names) u) (recorded : Option LiveType) :
    LiveType.Fits (a.hierarchy.InScope names) (a.merge t u recorded) ∧
      a.hierarchy.Assignable t (a.merge t u recorded) ∧
        a.hierarchy.Assignable u (a.merge t u recorded) := by
  unfold merge
  split
  · next heq => exact ⟨ht, .same, heq ▸ .same⟩
  split
  · exact ⟨hu, .null, .same⟩
  · exact ⟨ht, .same, .null⟩
  · obtain ⟨hscope, hs, ht⟩ := mergeReferences_spec hnames ht hu recorded
    exact ⟨hscope, .object hs, .object ht⟩
  · exact ⟨fun _ hname => (nomatch hname), .top, .top⟩

/-- Merging place by place, with as many places on both sides, gives a list above both. -/
theorem mergeAll_above (hnames : a.hierarchy.IsRooted names) :
    ∀ {types others recorded : List LiveType}, types.length = others.length →
      (∀ t ∈ types, LiveType.Fits (a.hierarchy.InScope names) t) →
        (∀ t ∈ others, LiveType.Fits (a.hierarchy.InScope names) t) →
          List.Forall₂ a.hierarchy.Assignable types (a.mergeAll types others recorded) ∧
            List.Forall₂ a.hierarchy.Assignable others (a.mergeAll types others recorded)
  | [], [], _, _, _, _ => by
    rw [mergeAll_nil]
    exact ⟨.nil, .nil⟩
  | t :: types, u :: others, recorded, hlength, htypes, hothers => by
    obtain ⟨ht, htypes⟩ := List.forall_mem_cons.mp htypes
    obtain ⟨hu, hothers⟩ := List.forall_mem_cons.mp hothers
    obtain ⟨hleft, hright⟩ := mergeAll_above hnames (Nat.succ.inj hlength) htypes hothers
    obtain ⟨-, htm, hum⟩ := merge_spec hnames ht hu recorded.head?
    rw [mergeAll_cons]
    exact ⟨.cons htm hleft, .cons hum hright⟩

/-- What merging gives is above both frames, and again a frame of the method. -/
theorem mergeFrames_spec (hnames : a.hierarchy.IsRooted names) {slots : Nat}
    {frame incoming merged : LiveFrame} {recorded : Option LiveFrame}
    (hframe : frame.Fits (a.hierarchy.InScope names) slots)
    (hincoming : incoming.Fits (a.hierarchy.InScope names) slots)
    (hmerged : a.mergeFrames frame incoming recorded = .ok merged) :
    merged.Fits (a.hierarchy.InScope names) slots ∧ a.hierarchy.FrameBelow frame merged ∧
      a.hierarchy.FrameBelow incoming merged := by
  have hholds := mergeFrames_holds (fun _ => True)
    (fun ht hu _ => (merge_spec hnames ht hu _).1) hframe hincoming (fun _ _ => trivial) hmerged
  obtain ⟨hheight, rfl, -⟩ := mergeFrames_eq_ok hmerged
  obtain ⟨hframeLocals, hincomingLocals⟩ := mergeAll_above hnames
    (hframe.slots.trans hincoming.slots.symm) hframe.locals hincoming.locals
  obtain ⟨hframeStack, hincomingStack⟩ :=
    mergeAll_above hnames hheight hframe.stack hincoming.stack
  exact ⟨hholds, ⟨hframeLocals, hframeStack⟩, ⟨hincomingLocals, hincomingStack⟩⟩

end Ancestry

end ClassText
