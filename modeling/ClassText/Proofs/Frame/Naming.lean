import ClassText.Proofs.Frame.Analysis
import ClassText.Proofs.Frame.Keeping
import ClassText.Proofs.Frame.Stored
import ClassText.Proofs.Frame.Weight

/-!
# Frames can be stored

Names of classes come into frames from constants and descriptors, where only
valid ones are accepted, from the class of the method, and from the hierarchy.
So if those of the hierarchy are valid, all types of the frames of a method are
made of classes with valid names. New objects are known by the label of the
instruction that made them. That is what it takes for a type to be told from the
form in which a class file holds it (`Analysis.holds_ofCode`).
-/

namespace ClassText

/-- The classes that stand above others have valid names. -/
def Hierarchy.IsNamed (h : Hierarchy) : Prop :=
  ∀ info ∈ h.known, ∀ name ∈ info.supertypes, ClassName.isValid name = true

namespace LiveType

variable {count : Nat}

theorem isStorable_iff {t : LiveType} :
    IsStorable count t ↔ LiveType.Fits (ClassName.isValid · = true) t ∧
      ∀ label, t = .uninitialized label → label < count := by
  constructor
  · intro h
    refine ⟨fun name hname => ?_, h.site⟩
    cases t with
    | object type => exact h.isNamed type rfl name hname
    | _ => cases hname
  · rintro ⟨hfits, hsite⟩
    exact ⟨fun type heq name hname => hfits name (heq ▸ hname), hsite⟩

theorem isStorable_object {type : RefType} (h : type.IsNamed) : IsStorable count (.object type) :=
  isStorable_iff.mpr ⟨h, nofun⟩

theorem isStorable_ofClass {name : String} (h : ClassName.isValid name = true) :
    IsStorable count (ofClass name) :=
  isStorable_object (RefType.isNamed_object.mpr h)

theorem isStorable_ofField {type : FieldType} (h : type.IsNamed) :
    IsStorable count (ofField type) := by
  rcases type with type | type
  · cases type <;> exact ⟨nofun, nofun⟩
  · exact isStorable_object h

theorem isClosed_isStorable (count : Nat) : IsClosed (IsStorable count) where
  plain := by
    intro t ht
    cases t with
    | object type => cases ht
    | uninitialized label => cases ht
    | _ => exact ⟨nofun, nofun⟩
  baseArray := fun type => isStorable_object (RefType.isNamed_array.mpr trivial)
  component := by
    intro type component htype hcomponent
    refine isStorable_iff.mpr ⟨fits_of_component? (isStorable_iff.mp htype).1 hcomponent, ?_⟩
    rcases component with base | component
    · cases base <;> exact nofun
    · exact nofun

end LiveType

/-! ## Constants -/

namespace ConstantPool

variable {pool : ConstantPool} {index : PoolIndex}

theorem readDescriptor_eq_ok {α : Type} {parse : String → Except DescriptorFault α}
    {text : String} {a : α} : readDescriptor parse text = .ok a ↔ parse text = .ok a := by
  unfold readDescriptor
  split <;> simp_all

theorem isNamed_referredClass {type : RefType} (h : pool.referredClass index = .ok type) :
    type.IsNamed := by
  unfold referredClass at h
  split at h
  · obtain ⟨text, -, h⟩ := Success.bind_eq_ok.mp h
    exact (RefType.ofConstantText_eq_ok.mp (readDescriptor_eq_ok.mp h)).2
  · cases h

theorem isNamed_referredField {type : FieldType} (h : pool.referredField index = .ok type) :
    type.IsNamed := by
  unfold referredField at h
  split at h
  · obtain ⟨member, -, h⟩ := Success.bind_eq_ok.mp h
    exact (FieldType.parse_eq_ok.mp (readDescriptor_eq_ok.mp h)).2
  · cases h

theorem isNamed_referredMethod {name : String} {type : MethodType}
    (h : pool.referredMethod index = .ok (name, type)) : type.IsNamed := by
  unfold referredMethod at h
  split at h
  · obtain ⟨member, -, h⟩ := Success.bind_eq_ok.mp h
    obtain ⟨read, hread, h⟩ := Success.bind_eq_ok.mp h
    cases h
    exact (MethodType.parse_eq_ok.mp (readDescriptor_eq_ok.mp hread)).2
  · cases h

theorem isNamed_referredCallSite {type : MethodType}
    (h : pool.referredCallSite index = .ok type) : type.IsNamed := by
  unfold referredCallSite at h
  split at h
  · obtain ⟨member, -, h⟩ := Success.bind_eq_ok.mp h
    exact (MethodType.parse_eq_ok.mp (readDescriptor_eq_ok.mp h)).2
  · cases h

theorem isStorable_loadedType {count : Nat} {t : LiveType} (h : pool.loadedType index = .ok t) :
    t.IsStorable count := by
  unfold loadedType at h
  split at h
  · cases h
  · cases h; exact ⟨nofun, nofun⟩
  · cases h; exact ⟨nofun, nofun⟩
  · cases h; exact ⟨nofun, nofun⟩
  · cases h; exact ⟨nofun, nofun⟩
  · cases h; exact LiveType.isStorable_ofClass (by decide +kernel)
  · cases h; exact LiveType.isStorable_ofClass (by decide +kernel)
  · cases h; exact LiveType.isStorable_ofClass (by decide +kernel)
  · cases h; exact LiveType.isStorable_ofClass (by decide +kernel)
  · obtain ⟨member, -, h⟩ := Success.bind_eq_ok.mp h
    obtain ⟨type, htype, h⟩ := Success.bind_eq_ok.mp h
    cases h
    exact LiveType.isStorable_ofField
      (FieldType.parse_eq_ok.mp (readDescriptor_eq_ok.mp htype)).2
  · cases h

/-- Whatever a constant brings into a frame can be stored. -/
theorem gives_isStorable (pool : ConstantPool) (count : Nat) (index : PoolIndex) :
    pool.Gives (LiveType.IsStorable count) index where
  ofClass := by
    intro type htype
    have hnamed := isNamed_referredClass htype
    refine ⟨LiveType.isStorable_object hnamed, LiveType.isStorable_object fun name hname => ?_⟩
    rw [LiveType.name?_arrayOf] at hname
    exact hnamed name hname
  ofField := fun htype => LiveType.isStorable_ofField (isNamed_referredField htype)
  ofMethod := fun htype hresult =>
    LiveType.isStorable_ofField ((isNamed_referredMethod htype).result _ hresult)
  ofCallSite := fun htype hresult =>
    LiveType.isStorable_ofField ((isNamed_referredCallSite htype).result _ hresult)
  ofValue := isStorable_loadedType

end ConstantPool

/-! ## Instructions -/

/-- What an instruction brings in can be stored: an object is made only at the label of a `new`. -/
theorem Instruction.gives_isStorable (pool : ConstantPool) (code : Array Instruction)
    (label : Label) :
    (code.getD label default).Gives pool (LiveType.IsStorable code.size) label where
  constant := fun index _ => pool.gives_isStorable code.size index
  fresh := by
    intro index type hnew _
    refine ⟨nofun, fun site heq => ?_⟩
    cases heq
    by_contra hout
    rw [Array.getD, dif_neg hout] at hnew
    cases hnew

/-! ## Merges -/

namespace Ancestry

variable {a : Ancestry} {count : Nat}

theorem isValid_of_inScope (hnamed : a.hierarchy.IsNamed) {name : String}
    (h : a.hierarchy.InScope (ClassName.isValid · = true) name) :
    ClassName.isValid name = true := by
  rcases h with rfl | ⟨origin, horigin, hbelow⟩
  · decide +kernel
  · induction hbelow with
    | refl => exact horigin
    | tail _ hstep _ =>
      obtain ⟨info, hinfo, hsuper⟩ := hstep
      exact hnamed info (Hierarchy.mem_known_of_resolve? hinfo) _ hsuper

theorem eq_of_merge_uninitialized {t u : LiveType} {recorded : Option LiveType} {label : Label}
    (h : a.merge t u recorded = .uninitialized label) : t = .uninitialized label := by
  unfold merge at h
  split at h
  · exact h
  split at h <;> cases h

theorem isStorable_merge (hnamed : a.hierarchy.IsNamed) {t u : LiveType}
    {recorded : Option LiveType} (ht : t.IsStorable count) (hu : LiveType.IsStorable count u)
    (hrecorded : LiveType.IsStorable count (.object (fallback recorded))) :
    LiveType.IsStorable count (a.merge t u recorded) := by
  have hscope {s : LiveType} (hs : LiveType.IsStorable count s) :
      LiveType.Fits (a.hierarchy.InScope (ClassName.isValid · = true)) s :=
    fun name hname => .inr ⟨name, (LiveType.isStorable_iff.mp hs).1 name hname, .refl _⟩
  have hmerged := merge_fits (hscope ht) (hscope hu) (hscope hrecorded)
  refine LiveType.isStorable_iff.mpr ⟨fun name hname => isValid_of_inScope hnamed
    (hmerged name hname), fun label heq => ?_⟩
  exact ht.site label (eq_of_merge_uninitialized heq)

end Ancestry

/-! ## Methods -/

namespace Analysis

variable {code : Code} {method : MethodHead} {pool : ConstantPool} {hierarchy : Hierarchy}

theorem isNamed_of_read? {offsets : Array Nat} {stored : StoredType} {t : LiveType}
    (h : stored.read? pool offsets = some t) : ∀ type, t = .object type → type.IsNamed := by
  rintro type rfl
  cases stored with
  | object index =>
    obtain ⟨read, hread, h⟩ := Option.bind_eq_some_iff.mp h
    cases h
    exact (FrameTable.classAt?_eq_some.mp hread).2
  | uninitialized site =>
    obtain ⟨label, -, h⟩ := Option.bind_eq_some_iff.mp h
    cases h
  | _ => cases h

theorem isNamed_catchType {handler : Handler} {type : RefType}
    (h : catchType pool handler = .ok type) : type.IsNamed := by
  unfold catchType at h
  split at h
  · cases h
    exact RefType.isNamed_object.mpr (by decide +kernel)
  · split at h
    · next hclass =>
      cases h
      exact (FrameTable.classAt?_eq_some.mp hclass).2
    · cases h

/-- The entry frame of a method can be stored. -/
theorem holds_entryOf (count : Nat) {entry : LiveFrame}
    (hthis : ClassName.isValid method.thisClass = true)
    (h : entryOf code method = .ok entry) :
    entry.Holds (LiveType.IsStorable count) entry.locals.length := by
  obtain ⟨type, htype, rfl⟩ := entryOf_eq_ok h
  exact LiveFrame.holds_entry (LiveType.isClosed_isStorable count)
    (LiveType.isStorable_ofClass hthis) (fun parameter hparameter =>
      LiveType.isStorable_ofField ((MethodType.parse_eq_ok.mp htype).2.parameters _ hparameter)) _

/-- Whatever comes into the frames of a method can be stored. -/
theorem gives_flowOf {entry : LiveFrame} {flow : Flow}
    (hthis : ClassName.isValid method.thisClass = true) (hnamed : hierarchy.IsNamed)
    (hentry : entry.Holds (LiveType.IsStorable code.instructions.size) entry.locals.length)
    (h : flowOf code method pool hierarchy entry = .ok flow) :
    flow.Gives (LiveType.IsStorable code.instructions.size) := by
  obtain ⟨types, htypes, h⟩ := Success.bind_eq_ok.mp h
  cases h
  refine ⟨⟨LiveType.isClosed_isStorable _, LiveType.isStorable_ofClass hthis, ?_⟩,
    Instruction.gives_isStorable pool code.instructions, ?_, ?_,
    Ancestry.isStorable_merge hnamed⟩
  · intro site index type _ htype
    exact LiveType.isStorable_object (ConstantPool.isNamed_referredClass htype)
  · rintro ⟨handler, type⟩ hhandler
    have htype := (List.forall₂_iff_zip.mp (Success.mapM_eq_ok.mp htypes)).2 hhandler
    exact LiveType.isStorable_object (isNamed_catchType htype)
  · -- A merge falls back to a type that was recorded, and that one was read.
    rintro type (rfl | ⟨known, hknown, hmem⟩)
    · exact LiveType.isStorable_ofClass (by decide +kernel)
    · refine LiveType.isStorable_object ?_
      cases hrecorded : (code.frameTable? pool).bind
          (FrameTable.frames? pool code.sourceOffsets entry) with
      | none =>
        rw [Code.recordedFrames, hrecorded] at hknown
        cases hknown
      | some frames =>
        rw [Code.recordedFrames, hrecorded] at hknown
        obtain ⟨table, -, hframes⟩ := Option.bind_eq_some_iff.mp hrecorded
        exact FrameTable.good_of_frames? (fun _ heq => nomatch heq) isNamed_of_read?
          (fun t ht => (hentry.locals t ht).isNamed) hframes known hknown _ hmem type rfl

/-- The frames that an analysis holds can all be stored. -/
theorem holds_ofCode {a : Analysis} (hthis : ClassName.isValid method.thisClass = true)
    (hnamed : hierarchy.IsNamed) (h : ofCode code method pool hierarchy = .ok a) :
    a.entry.Holds (LiveType.IsStorable code.instructions.size) a.entry.locals.length ∧
      ∀ listed ∈ a.frames,
        listed.2.Holds (LiveType.IsStorable code.instructions.size) a.entry.locals.length := by
  obtain ⟨flow, state, hentry, hflow, hloop, hframes, -⟩ := ofCode_eq_ok h
  have hholds := holds_entryOf code.instructions.size hthis hentry
  have hall := ((gives_flowOf hthis hnamed hholds hflow).preserves a.entry.locals.length).loop
    (Flow.allFrames_start hholds) hloop
  exact ⟨hholds, fun listed hlisted => hall _ _ ((blockFrames_spec hframes).2 listed hlisted)⟩

end Analysis

end ClassText
