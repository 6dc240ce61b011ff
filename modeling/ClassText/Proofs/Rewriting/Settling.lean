import ClassText.Proofs.ConstantPool.Growth
import ClassText.Proofs.Success
import ClassText.Rewriting.Method

/-!
# Code that settles

When instructions have moved, frames are derived again and attributes that hold
old offsets are left out. Neither step touches an instruction or a handler:
`Code.IsSettled` says what may differ, and `ensures_settleMoved` that nothing
else does. Deriving frames can fail at several points; as a change of the pool
it is the short sequence of `code_deriveFrames`, because the code that a failed
derivation leaves behind is not looked at.
-/

namespace ClassText

open ConstantPool PoolChange

/-! ## Frames only intern -/

theorem ensures_storeType (offsets : Array Nat) (t : LiveType) (pool : ConstantPool) :
    (LiveFrame.storeType offsets t).Ensures pool fun _ _ => True := by
  cases t with
  | object type =>
    exact (ensures_internClass _ pool).bind fun _ _ _ _ => ensures_pure trivial
  | uninitialized site => exact ensures_pure trivial
  | _ => exact ensures_pure trivial

theorem ensures_stored (offsets : Array Nat) (frame : LiveFrame) (pool : ConstantPool) :
    (frame.stored offsets).Ensures pool fun _ _ => True :=
  have htypes (types : List LiveType) (p : ConstantPool) :=
    ensures_mapM (fun _ _ => trivial) (fun t (_ : t ∈ types) => ensures_storeType offsets t) p
  (htypes _ pool).bind fun _ p _ _ => (htypes _ p).bind fun _ _ _ _ => ensures_pure trivial

theorem ensures_add (offsets : Array Nat) (draft : FrameTable.Draft) (entry : Label × LiveFrame)
    (pool : ConstantPool) :
    (draft.add offsets entry).Ensures pool fun after _ =>
      after.deltas.length = draft.deltas.length + 1 :=
  (ensures_stored offsets entry.2 pool).bind fun _ _ _ _ => ensures_pure rfl

theorem ensures_addAll (offsets : Array Nat) (frames : List (Label × LiveFrame))
    (draft : FrameTable.Draft) (pool : ConstantPool) :
    (frames.foldlM (FrameTable.Draft.add offsets) draft).Ensures pool fun after _ =>
      after.deltas.length = draft.deltas.length + frames.length := by
  refine ensures_foldlM (I := fun left after _ =>
    after.deltas.length + left.length = draft.deltas.length + frames.length) ?_ frames draft pool rfl
  intro before entry left p hbefore
  refine (ensures_add offsets before entry p).mono fun after _ _ hafter => ?_
  rw [hafter, Nat.add_right_comm, Nat.add_assoc, ← hbefore, List.length_cons]

/-- A table has an entry for each frame. -/
theorem ensures_ofFrames (offsets : Array Nat) (entry : LiveFrame)
    (frames : List (Label × LiveFrame)) (pool : ConstantPool) :
    (FrameTable.ofFrames offsets entry frames).Ensures pool fun table _ =>
      table.length = frames.length := by
  refine (ensures_stored offsets entry pool).bind fun stored p _ _ => ?_
  have hadded := ensures_addAll offsets frames ⟨stored, 0, []⟩ p
  refine hadded.bind fun draft _ _ hlength => ensures_pure ?_
  rw [List.length_reverse, hlength, List.length_nil, Nat.zero_add]

theorem ensures_deriveTable (code : Code) (method : MethodHead) (hierarchy : Hierarchy)
    (pool : ConstantPool) :
    (code.deriveTable method hierarchy).Ensures pool fun (analysis, table) _ =>
      Analysis.ofCode code method pool hierarchy = .ok analysis ∧
        table.length = (code.neededFrames analysis.frames).length := by
  refine (ensures_get (P := fun p _ => p = pool) rfl).bind fun p _ _ hp => ?_
  subst hp
  refine (ensures_ofExcept (P := fun a _ => Analysis.ofCode code method p hierarchy = .ok a)
    fun _ h => Success.mapError_eq_ok.mp h).bind fun _ _ _ hanalysis => ?_
  refine (ensures_ofExcept fun _ _ => trivial).bind fun _ _ _ (_ : True) => ?_
  exact (ensures_ofFrames _ _ _ _).bind fun _ _ _ hlength => ensures_pure ⟨hanalysis, hlength⟩

theorem run_ofPool {α : Type} (change : PoolChange α) (code : Code) (pool : ConstantPool) :
    CodeChange.ofPool change (code, pool) = ((change pool).1, code, (change pool).2) := rfl

/-- Everything that deriving frames can do. -/
theorem run_deriveFrames (code : Code) (method : MethodHead) (hierarchy : Hierarchy)
    (pool : ConstantPool) :
    CodeChange.deriveFrames method hierarchy (code, pool) =
      match code.deriveTable method hierarchy pool with
      | (.error e, grown) => (.error e, code, grown)
      | (.ok (analysis, table), grown) =>
        match internText CodeAttribute.frameTable grown with
        | (.error e, left) => (.error e, code.raiseLimits analysis, left)
        | (.ok name, left) => (.ok (), (code.raiseLimits analysis).withFrames name table, left) := by
  unfold CodeChange.deriveFrames CodeChange.setFrames
  rcases hd : code.deriveTable method hierarchy pool with ⟨_ | ⟨analysis, table⟩, p⟩
  · simp only [run_bind, run_get, run_ofPool, hd]
  · rcases hi : internText CodeAttribute.frameTable p with ⟨_ | name, q⟩ <;>
      simp only [run_bind, run_get, run_modify, run_ofPool, hd, hi]

theorem code_deriveFrames (code : Code) (method : MethodHead) (hierarchy : Hierarchy) :
    (CodeChange.deriveFrames method hierarchy).code code = (do
      let (analysis, table) ← code.deriveTable method hierarchy
      let name ← internText CodeAttribute.frameTable
      return (code.raiseLimits analysis).withFrames name table) := by
  funext pool
  rw [CodeChange.code, run_deriveFrames]
  rcases hd : code.deriveTable method hierarchy pool with ⟨_ | ⟨analysis, table⟩, p⟩
  · simp only [run_bind, hd, Except.map]
  · rcases hi : internText CodeAttribute.frameTable p with ⟨_ | name, q⟩ <;>
      simp only [run_bind, run_pure, hd, hi, Except.map]

/-- What a change of code leaves as its result. -/
theorem run_code_eq_ok {change : CodeChange Unit} {code after : Code}
    {pool grown : ConstantPool} :
    change.code code pool = (.ok after, grown) ↔ change (code, pool) = (.ok (), after, grown) := by
  rw [CodeChange.code]
  rcases change (code, pool) with ⟨_ | _, left, p⟩
  · constructor <;> intro h <;> cases (Prod.mk.inj h).1
  · constructor
    · intro h
      obtain ⟨hleft, rfl⟩ := Prod.mk.inj h
      rw [← Except.ok.inj hleft]
    · intro h
      obtain ⟨rfl, rfl⟩ := Prod.mk.inj (Prod.mk.inj h).2
      rfl

/-- A derivation that succeeds makes a table, and interns the name of it. -/
theorem exists_table_of_deriveFrames {code after : Code} {method : MethodHead}
    {hierarchy : Hierarchy} {pool grown : ConstantPool}
    (h : CodeChange.deriveFrames method hierarchy (code, pool) = (.ok (), after, grown)) :
    ∃ analysis table middle name,
      code.deriveTable method hierarchy pool = (.ok (analysis, table), middle) ∧
        internText CodeAttribute.frameTable middle = (.ok name, grown) ∧
        after = (code.raiseLimits analysis).withFrames name table := by
  have h := run_code_eq_ok.mpr h
  rw [code_deriveFrames] at h
  obtain ⟨⟨analysis, table⟩, middle, htable, h⟩ := run_bind_eq_ok h
  obtain ⟨name, _, hname, h⟩ := run_bind_eq_ok h
  obtain ⟨hafter, rfl⟩ := Prod.mk.inj h
  exact ⟨analysis, table, middle, name, htable, hname, (Except.ok.inj hafter).symm⟩

/-- Frames that were derived are those of an analysis of the code. -/
theorem deriveFrames_eq_ok {code after : Code} {method : MethodHead} {hierarchy : Hierarchy}
    {pool grown : ConstantPool}
    (h : CodeChange.deriveFrames method hierarchy (code, pool) = (.ok (), after, grown)) :
    ∃ analysis name table, Analysis.ofCode code method pool hierarchy = .ok analysis ∧
      after = (code.raiseLimits analysis).withFrames name table := by
  obtain ⟨analysis, table, middle, name, htable, -, hafter⟩ := exists_table_of_deriveFrames h
  obtain ⟨-, hanalysis, -⟩ := (ensures_deriveTable code method hierarchy pool).of_run htable
  exact ⟨analysis, name, table, hanalysis, hafter⟩

/-! ## What may differ -/

/-- The second code is the first one but for its limits and for attributes that hold offsets:
those kept as bytes may be missing, and a table of frames may be new. -/
structure Code.IsSettled (code settled : Code) (pool : ConstantPool) : Prop where
  instructions : settled.instructions = code.instructions
  handlers : settled.handlers = code.handlers
  attributes : ∀ a ∈ settled.attributes,
    (a ∈ code.attributes ∧ CodeAttribute.isStale pool a = false) ∨
      ∃ table, a.body = .frames table ∧ pool.text? a.name = some CodeAttribute.frameTable
  length_le : settled.attributes.length ≤ code.attributes.length + 1

/-- The attribute of a table of frames. There is none if the table is empty. -/
def Code.frameAttributes (name : PoolIndex) (table : FrameTable) : List CodeAttribute :=
  if table.isEmpty then [] else [⟨name, .frames table⟩]

theorem mem_frameAttributes {name : PoolIndex} {table : FrameTable} {a : CodeAttribute}
    (h : a ∈ Code.frameAttributes name table) : a = ⟨name, .frames table⟩ := by
  unfold Code.frameAttributes at h
  split at h
  · cases h
  · exact List.mem_singleton.mp h

theorem length_frameAttributes_le (name : PoolIndex) (table : FrameTable) :
    (Code.frameAttributes name table).length ≤ 1 := by
  unfold Code.frameAttributes
  split <;> simp

theorem attributes_withFrames (code : Code) (name : PoolIndex) (table : FrameTable) :
    (code.withFrames name table).attributes =
      code.attributes.filter (·.name != name) ++ Code.frameAttributes name table := by
  unfold Code.withFrames Code.frameAttributes
  dsimp only
  split
  · rw [List.append_nil]
  · rfl

theorem mem_withFrames {code : Code} {name : PoolIndex} {table : FrameTable}
    {a : CodeAttribute} (h : a ∈ (code.withFrames name table).attributes) :
    a ∈ code.attributes ∨ a = ⟨name, .frames table⟩ := by
  rw [attributes_withFrames] at h
  exact (List.mem_append.mp h).imp (fun h => (List.mem_filter.mp h).1) mem_frameAttributes

theorem length_withFrames_le (code : Code) (name : PoolIndex) (table : FrameTable) :
    (code.withFrames name table).attributes.length ≤ code.attributes.length + 1 := by
  rw [attributes_withFrames, List.length_append]
  exact Nat.add_le_add (List.length_filter_le ..) (length_frameAttributes_le name table)

/-- Frames that were derived are in a table, under the name of tables of frames. -/
theorem ensures_deriveFrames (code : Code) (method : MethodHead) (hierarchy : Hierarchy)
    (pool : ConstantPool) :
    ((CodeChange.deriveFrames method hierarchy).code code).Ensures pool fun framed grown =>
      ∃ analysis name table, framed = (code.raiseLimits analysis).withFrames name table ∧
        grown.text? name = some CodeAttribute.frameTable := by
  rw [code_deriveFrames]
  refine (ensures_deriveTable code method hierarchy pool).bind fun (analysis, table) p _ _ => ?_
  refine (ensures_internText CodeAttribute.frameTable p).bind fun name q _ hname => ?_
  exact ensures_pure ⟨analysis, name, table, rfl, hname⟩

theorem isSettled_dropStale {code code' : Code} {pool : ConstantPool}
    (hinsns : code'.instructions = code.instructions) (hhandlers : code'.handlers = code.handlers)
    (hattrs : ∀ a ∈ code'.attributes, a ∈ code.attributes ∨
      ∃ table, a.body = .frames table ∧ pool.text? a.name = some CodeAttribute.frameTable)
    (hlen : code'.attributes.length ≤ code.attributes.length + 1) :
    code.IsSettled (code'.dropStale pool) pool where
  instructions := hinsns
  handlers := hhandlers
  attributes := by
    intro a ha
    obtain ⟨hmem, hfresh⟩ := List.mem_filter.mp ha
    rcases hattrs a hmem with h | h
    · exact .inl ⟨h, by simpa using hfresh⟩
    · exact .inr h
  length_le := Nat.le_trans (List.length_filter_le ..) hlen

theorem ensures_settleMoved (code : Code) (needsFrames : Bool) (method : MethodHead)
    (hierarchy : Hierarchy) (pool : ConstantPool) :
    (code.settleMoved needsFrames method hierarchy).Ensures pool code.IsSettled := by
  unfold Code.settleMoved
  cases needsFrames with
  | false =>
    refine (ensures_pure (P := fun c _ => c = code) rfl).bind fun c p _ hc => ?_
    refine (ensures_get (P := fun q p => q = p) rfl).bind fun q p _ hq => ensures_pure ?_
    subst hc hq
    exact isSettled_dropStale rfl rfl (fun _ ha => .inl ha) (Nat.le_succ _)
  | true =>
    rw [if_pos rfl]
    refine (ensures_deriveFrames code method hierarchy pool).bind ?_
    rintro c p - ⟨analysis, name, table, rfl, hname⟩
    refine (ensures_get (P := fun q p => q = p) rfl).bind fun q r hgrows hq => ensures_pure ?_
    subst hq
    refine isSettled_dropStale rfl rfl ?_ (length_withFrames_le ..)
    intro a ha
    rcases mem_withFrames ha with ha | rfl
    · exact .inl ha
    · exact .inr ⟨table, rfl, hgrows.text? hname⟩

end ClassText
