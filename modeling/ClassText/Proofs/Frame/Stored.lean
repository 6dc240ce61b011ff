import ClassText.Frame.Stored
import ClassText.Proofs.Code.Attribute
import ClassText.Proofs.ConstantPool.Growth
import ClassText.Proofs.Descriptor.Reading
import ClassText.Proofs.Frame.Delta
import ClassText.Proofs.Frame.Shape

/-!
# Tables are read as what they were made of

A table of frames is made step by step, and each step may add classes to the
pool. It is read in the pool that is left at the end. Whatever a type was stored
as is read as that type in every pool that has grown from there
(`StoredFrame.Reads`), so one step of reading the table undoes one step of making
it, and the table is read as the frames of which it was made
(`FrameTable.ensures_ofFrames_reads`). The offsets of its frames are those of
their labels: since the labels ascend, no difference of offsets is cut off.
-/

namespace ClassText

open Assembled ConstantPool PoolChange

/-- The type can be told from what it is stored as: names are valid, and an object was made by
one of so many instructions. -/
structure LiveType.IsStorable (count : Nat) (t : LiveType) : Prop where
  isNamed : ∀ type, t = .object type → type.IsNamed
  site : ∀ label, t = .uninitialized label → label < count

/-- The offsets of frames in a table, the first of which can be at the given one. -/
def FrameTable.offsetsFrom (next : Nat) : FrameTable → List Nat
  | [] => []
  | delta :: rest =>
    (next + delta.offset.toNat) :: offsetsFrom (next + delta.offset.toNat + 1) rest

/-- What a stored type is read as, in a pool and with the offsets of all labels. -/
abbrev StoredType.read? (pool : ConstantPool) (offsets : Array Nat) (t : StoredType) :
    Option LiveType :=
  t.mapM (FrameTable.classAt? pool) fun site => Decoded.startAt? offsets site.toNat

/-- The second frame is what the stored one is read as. -/
abbrev StoredFrame.Reads (pool : ConstantPool) (offsets : Array Nat) :
    StoredFrame → LiveFrame → Prop :=
  Frame.IsRead (FrameTable.classAt? pool) fun site => Decoded.startAt? offsets site.toNat

/-! ## Types -/

variable {pool grown : ConstantPool} {code : Array Instruction}

namespace FrameTable

theorem classAt?_eq_some {index : PoolIndex} {type : RefType} :
    classAt? pool index = some type ↔
      pool.className index = .ok type.constantText ∧ type.IsNamed := by
  refine Option.bind_eq_some_iff.trans ?_
  simp only [Success.toOption_eq_some, RefType.ofConstantText_eq_ok]
  constructor
  · rintro ⟨name, hname, rfl, hnamed⟩
    exact ⟨hname, hnamed⟩
  · rintro ⟨hname, hnamed⟩
    exact ⟨_, hname, rfl, hnamed⟩

theorem classAt?_grows (h : pool.Grows grown) {index : PoolIndex} {type : RefType}
    (htype : classAt? pool index = some type) : classAt? grown index = some type := by
  obtain ⟨hname, hnamed⟩ := classAt?_eq_some.mp htype
  exact classAt?_eq_some.mpr ⟨h.className hname, hnamed⟩

end FrameTable

theorem StoredType.read?_grows {offsets : Array Nat} (h : pool.Grows grown) {stored : StoredType}
    {t : LiveType} (hread : stored.read? pool offsets = some t) :
    stored.read? grown offsets = some t := by
  cases stored with
  | object index =>
    obtain ⟨type, htype, heq⟩ := Option.bind_eq_some_iff.mp hread
    exact Option.bind_eq_some_iff.mpr ⟨type, FrameTable.classAt?_grows h htype, heq⟩
  | _ => exact hread

theorem StoredFrame.Reads.grows {offsets : Array Nat} {stored : StoredFrame} {frame : LiveFrame}
    (hread : stored.Reads pool offsets frame) (h : pool.Grows grown) :
    stored.Reads grown offsets frame :=
  ⟨hread.locals.imp fun _ _ => StoredType.read?_grows h,
    hread.stack.imp fun _ _ => StoredType.read?_grows h⟩

theorem ensures_storeType_reads (hend : endOf 0 code.toList ≤ 65535) {t : LiveType}
    (ht : t.IsStorable code.size) (pool : ConstantPool) :
    (LiveFrame.storeType (offsetsOf code) t).Ensures pool fun stored grown =>
      stored.read? grown (offsetsOf code) = some t := by
  cases t with
  | object type =>
    refine (ensures_internClass _ pool).bind fun index p _ hindex => ensures_pure ?_
    have hclass := FrameTable.classAt?_eq_some.mpr ⟨hindex, ht.isNamed type rfl⟩
    exact Option.bind_eq_some_iff.mpr ⟨type, hclass, rfl⟩
  | uninitialized label =>
    refine ensures_pure (Option.bind_eq_some_iff.mpr ⟨label, ?_, rfl⟩)
    exact startAt?_eq_some_iff.mpr ⟨ht.site label rfl, (CodeAttribute.toNat_offset hend label).symm⟩
  | _ => exact ensures_pure rfl

/-! ## Frames -/

theorem ensures_storeTypes_reads (hend : endOf 0 code.toList ≤ 65535) {types : List LiveType}
    (htypes : ∀ t ∈ types, t.IsStorable code.size) (pool : ConstantPool) :
    (types.mapM (LiveFrame.storeType (offsetsOf code))).Ensures pool fun stored grown =>
      List.Forall₂ (fun s t => s.read? grown (offsetsOf code) = some t) stored types := by
  have hall := ensures_mapM
    (R := fun (t : LiveType) (s : StoredType) p => s.read? p (offsetsOf code) = some t)
    (fun hgrows => StoredType.read?_grows hgrows)
    (fun t ht => ensures_storeType_reads hend (htypes t ht)) pool
  exact hall.mono fun _ _ _ => List.Forall₂.flip

theorem ensures_stored_reads (hend : endOf 0 code.toList ≤ 65535) {frame : LiveFrame} {slots : Nat}
    (hframe : frame.Holds (LiveType.IsStorable code.size) slots) (pool : ConstantPool) :
    (frame.stored (offsetsOf code)).Ensures pool fun stored grown =>
      stored.Reads grown (offsetsOf code) frame.pack := by
  have hlocals : ∀ t ∈ frame.pack.locals, LiveType.IsStorable code.size t :=
    fun t ht => hframe.locals t ((VerificationType.pack_sublist _).mem ht)
  have hstack : ∀ t ∈ frame.pack.stack.reverse, LiveType.IsStorable code.size t :=
    fun t ht => hframe.stack t (List.mem_reverse.mp ht)
  refine (ensures_storeTypes_reads hend hlocals pool).bind fun locals p _ hlocals => ?_
  refine (ensures_storeTypes_reads hend hstack p).bind fun stack q hq hstack => ensures_pure ?_
  refine ⟨hlocals.imp fun _ _ => StoredType.read?_grows hq, ?_⟩
  have hreversed := List.rel_reverse hstack
  rwa [List.reverse_reverse] at hreversed

/-! ## Tables -/

namespace FrameTable

/-- A frame has been added to a draft, and it is read back in the same step of reading. -/
structure Adds (code : Array Instruction) (draft after : Draft) (label : Label)
    (frame : LiveFrame) (delta : FrameDelta PoolIndex UInt16) (pool : ConstantPool) : Prop where
  deltas : after.deltas = delta :: draft.deltas
  next : after.next = (offsetsOf code).getD label 0 + 1
  offset : draft.next + delta.offset.toNat = (offsetsOf code).getD label 0
  reads : after.previous.Reads pool (offsetsOf code) frame.pack
  add? : ∀ {grown : ConstantPool}, pool.Grows grown → ∀ {previous : LiveFrame},
    draft.previous.Reads grown (offsetsOf code) previous → ∀ before,
      Reading.add? grown (offsetsOf code) ⟨previous, draft.next, before⟩ delta =
        some ⟨frame.pack, after.next, (label, frame.pack.spread) :: before⟩

theorem ensures_add (hend : endOf 0 code.toList ≤ 65535) {label : Label}
    (hlabel : label < code.size) {frame : LiveFrame} {slots : Nat}
    (hframe : frame.Holds (LiveType.IsStorable code.size) slots) {draft : Draft}
    (hle : draft.next ≤ (offsetsOf code).getD label 0) (pool : ConstantPool) :
    (Draft.add (offsetsOf code) draft (label, frame)).Ensures pool fun after grown =>
      ∃ delta, Adds code draft after label frame delta grown := by
  refine (ensures_stored_reads hend hframe pool).bind fun stored p _ hstored => ensures_pure ?_
  -- The offset of the frame is at most that of the end, so that the difference fits.
  have hoffset : draft.next + (UInt16.ofNat ((offsetsOf code).getD label 0 - draft.next)).toNat =
      (offsetsOf code).getD label 0 := by
    have hfits := Nat.le_trans (getD_offsetsOf_le code label) hend
    rw [UInt16.toNat_ofNat', Nat.mod_eq_of_lt (by omega)]
    omega
  refine ⟨_, rfl, rfl, ?_, hstored, ?_⟩
  · rw [Frame.offset_deltaFrom]
    exact hoffset
  · intro q hq previous hprevious before
    obtain ⟨delta, hdelta, hsame, hafter⟩ := FrameDelta.exists_read
      (Frame.after?_deltaFrom stored draft.previous _) hprevious (hstored.grows hq)
    rw [Frame.offset_deltaFrom] at hsame
    refine Option.bind_eq_some_iff.mpr ⟨delta, hdelta, ?_⟩
    refine Option.bind_eq_some_iff.mpr ⟨frame.pack, hafter, ?_⟩
    rw [hsame, hoffset]
    exact Option.bind_eq_some_iff.mpr ⟨label, startAt?_eq_some_iff.mpr ⟨hlabel, rfl⟩, rfl⟩

/-- The frames at labels in ascending order that are all behind the frames in a draft. -/
structure AreNext (code : Array Instruction) (slots next : Nat)
    (frames : List (Label × LiveFrame)) : Prop where
  ascending : frames.Pairwise fun entry later => entry.1 < later.1
  label_lt : ∀ entry ∈ frames, entry.1 < code.size
  next_le : ∀ entry ∈ frames, next ≤ (offsetsOf code).getD entry.1 0
  holds : ∀ entry ∈ frames, entry.2.Holds (LiveType.IsStorable code.size) slots

theorem AreNext.tail {slots next : Nat} {entry : Label × LiveFrame}
    {rest : List (Label × LiveFrame)} (h : AreNext code slots next (entry :: rest)) :
    AreNext code slots ((offsetsOf code).getD entry.1 0 + 1) rest where
  ascending := h.ascending.of_cons
  label_lt := (List.forall_mem_cons.mp h.label_lt).2
  next_le := fun later hlater =>
    getD_offsetsOf_lt (List.rel_of_pairwise_cons h.ascending hlater)
      (Nat.le_of_lt (h.label_lt later (List.mem_cons_of_mem _ hlater)))
  holds := (List.forall_mem_cons.mp h.holds).2

/-- The frames that are added to a table are read back, each with its label. -/
theorem ensures_addAll_reads (hend : endOf 0 code.toList ≤ 65535) {slots : Nat}
    {frames : List (Label × LiveFrame)} (draft : Draft) {previous : LiveFrame}
    (hframes : AreNext code slots draft.next frames)
    (hprevious : draft.previous.Reads pool (offsetsOf code) previous)
    (before : List (Label × LiveFrame)) :
    (frames.foldlM (Draft.add (offsetsOf code)) draft).Ensures pool fun after grown =>
      ∃ added last next, after.deltas = added.reverse ++ draft.deltas ∧
        offsetsFrom draft.next added = frames.map (fun entry => (offsetsOf code).getD entry.1 0) ∧
        ∀ {later : ConstantPool}, grown.Grows later →
          added.foldlM (Reading.add? later (offsetsOf code)) ⟨previous, draft.next, before⟩ =
            some ⟨last, next,
              (frames.map fun entry => (entry.1, entry.2.pack.spread)).reverse ++ before⟩ := by
  induction frames generalizing draft previous pool before with
  | nil => exact ensures_pure ⟨[], previous, draft.next, rfl, rfl, fun _ => rfl⟩
  | cons entry rest ih =>
    obtain ⟨label, frame⟩ := entry
    have hlabel := hframes.label_lt _ List.mem_cons_self
    have hframe := hframes.holds _ List.mem_cons_self
    have hle := hframes.next_le _ List.mem_cons_self
    rw [List.foldlM_cons]
    refine (ensures_add hend hlabel hframe hle pool).bind fun middle p hp ⟨delta, hadds⟩ => ?_
    have hrest := ih middle (hadds.next ▸ hframes.tail) hadds.reads
      ((label, frame.pack.spread) :: before)
    refine hrest.mono fun after q hq ⟨added, last, next, hdeltas, hoffsets, hfold⟩ => ?_
    refine ⟨delta :: added, last, next, ?_, ?_, ?_⟩
    · rw [hdeltas, hadds.deltas, List.reverse_cons, List.append_assoc, List.singleton_append]
    · rw [offsetsFrom, hadds.offset, ← hadds.next, hoffsets, List.map_cons]
    · intro later hlater
      have hread := hprevious.grows (hp.trans (hq.trans hlater))
      rw [List.foldlM_cons, hadds.add? (hq.trans hlater) hread, Option.bind_eq_bind,
        Option.bind_some, hfold hlater, List.map_cons, List.reverse_cons, List.append_assoc,
        List.singleton_append]

/-- A table is read, in every pool that grows from the one that making it leaves, as the frames of
which it was made. -/
theorem ensures_ofFrames_reads (hend : endOf 0 code.toList ≤ 65535) {entry : LiveFrame}
    {slots : Nat} (hentry : entry.Holds (LiveType.IsStorable code.size) slots)
    {frames : List (Label × LiveFrame)} (hframes : AreNext code slots 0 frames)
    (pool : ConstantPool) :
    (ofFrames (offsetsOf code) entry frames).Ensures pool fun table grown =>
      offsetsFrom 0 table = frames.map (fun entry => (offsetsOf code).getD entry.1 0) ∧
        ∀ {later : ConstantPool}, grown.Grows later →
          frames? later (offsetsOf code) entry table =
            some (frames.map fun entry => (entry.1, entry.2.pack.spread)) := by
  refine (ensures_stored_reads hend hentry pool).bind fun stored p _ hstored => ?_
  have hadded := ensures_addAll_reads hend ⟨stored, 0, []⟩ hframes hstored []
  refine hadded.bind fun after q _ hafter => ensures_pure ?_
  obtain ⟨added, last, next, hdeltas, hoffsets, hfold⟩ := hafter
  rw [List.append_nil] at hdeltas
  rw [hdeltas, List.reverse_reverse]
  refine ⟨hoffsets, fun hlater => Option.bind_eq_some_iff.mpr ⟨_, hfold hlater, ?_⟩⟩
  simp

/-! ## What a table can hold -/

/-- All types of the frames that were read have a property, and so have the variables of the
frame before. -/
structure Reading.Holds (good : LiveType → Prop) (reading : Reading) : Prop where
  previous : ∀ t ∈ reading.previous.locals, good t
  frames : ∀ entry ∈ reading.frames, ∀ t, t ∈ entry.2.locals ∨ t ∈ entry.2.stack → good t

variable {good : LiveType → Prop} {offsets : Array Nat}

theorem Reading.Holds.add? (htop : good .top)
    (hread : ∀ {s : StoredType} {t : LiveType}, s.read? pool offsets = some t → good t)
    {reading after : Reading} (h : reading.Holds good) {delta : FrameDelta PoolIndex UInt16}
    (hadd : reading.add? pool offsets delta = some after) : after.Holds good := by
  obtain ⟨readDelta, hdelta, hadd⟩ := Option.bind_eq_some_iff.mp hadd
  obtain ⟨frame, hframe, hadd⟩ := Option.bind_eq_some_iff.mp hadd
  obtain ⟨label, -, hadd⟩ := Option.bind_eq_some_iff.mp hadd
  cases hadd
  have hgood : ∀ t, t ∈ frame.locals ∨ t ∈ frame.stack → good t := by
    intro t ht
    rcases Frame.mem_of_after? hframe ht with ht | ht
    · exact h.previous t ht
    · obtain ⟨s, hs⟩ := FrameDelta.exists_of_mem_types hdelta ht
      exact hread hs
  refine ⟨fun t ht => hgood t (.inl ht), List.forall_mem_cons.mpr ⟨fun t ht => ?_, h.frames⟩⟩
  rcases ht with ht | ht
  · rcases VerificationType.mem_spread ht with ht | rfl
    · exact hgood t (.inl ht)
    · exact htop
  · exact hgood t (.inr ht)

/-- What holds of all types that can be read, and of the variables at the entry, holds of all
types in a table. -/
theorem good_of_frames? (htop : good .top)
    (hread : ∀ {s : StoredType} {t : LiveType}, s.read? pool offsets = some t → good t)
    {entry : LiveFrame} (hentry : ∀ t ∈ entry.locals, good t) {table : FrameTable}
    {frames : List (Label × LiveFrame)} (h : frames? pool offsets entry table = some frames) :
    ∀ known ∈ frames, ∀ t, t ∈ known.2.locals ∨ t ∈ known.2.stack → good t := by
  have hfold : ∀ {table : FrameTable} {reading after : Reading}, reading.Holds good →
      table.foldlM (Reading.add? pool offsets) reading = some after → after.Holds good := by
    intro table
    induction table with
    | nil => exact fun hreading h => Option.some.inj h ▸ hreading
    | cons delta table ih =>
      intro reading after hreading h
      rw [List.foldlM_cons] at h
      obtain ⟨middle, hmiddle, h⟩ := Option.bind_eq_some_iff.mp h
      exact ih (hreading.add? htop hread hmiddle) h
  obtain ⟨reading, hreading, h⟩ := Option.bind_eq_some_iff.mp h
  cases h
  have hstart : Reading.Holds good ⟨entry.pack, 0, []⟩ :=
    ⟨fun t ht => hentry t ((VerificationType.pack_sublist _).mem ht), nofun⟩
  exact fun known hknown => (hfold hstart hreading).frames known (List.mem_reverse.mp hknown)

end FrameTable

end ClassText
