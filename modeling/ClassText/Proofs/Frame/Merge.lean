import ClassText.Frame.Merge
import ClassText.Proofs.Frame.Shape
import ClassText.Proofs.Success

/-!
# Merging place by place

Merged frames are made of merged types, each given the type that was recorded at
its place (`mergeAll_cons`, `mergeFrames_eq_ok`). So a property of types is kept
by merging frames if it is kept by merging types (`mergeFrames_holds`). What was
recorded matters to a merge as the type to which it falls back.
-/

namespace ClassText.Ancestry

variable {a : Ancestry}

/-! ## Falling back -/

/-- The type to which a merge falls back, given the one recorded. -/
def fallback : Option LiveType → RefType
  | some (.object type) => type
  | _ => .object ClassName.throwable

/-- A type to which merges fall back at a place, given the frame recorded there. -/
def FallsBack (recorded : Option LiveFrame) (type : RefType) : Prop :=
  type = .object ClassName.throwable ∨
    ∃ r, recorded = some r ∧ (.object type ∈ r.locals ∨ .object type ∈ r.stack)

/-- What was recorded for a stack of this height. -/
def recordedStack (recorded : Option LiveFrame) (height : Nat) : List LiveType :=
  match recorded with
  | some r => if r.stack.length = height then r.stack else []
  | none => []

def recordedLocals (recorded : Option LiveFrame) : List LiveType :=
  (recorded.map (·.locals)).getD []

theorem fallback_head? (recorded : List LiveType) :
    fallback recorded.head? = .object ClassName.throwable ∨
      .object (fallback recorded.head?) ∈ recorded := by
  unfold fallback
  split
  · next type hrecorded => exact .inr (List.mem_of_head? hrecorded)
  · exact .inl rfl

theorem fallsBack_of_mem_locals (recorded : Option LiveFrame) {type : RefType}
    (h : type = .object ClassName.throwable ∨ .object type ∈ recordedLocals recorded) :
    FallsBack recorded type := by
  refine h.imp_right fun hmem => ?_
  cases recorded with
  | none => cases hmem
  | some r => exact ⟨r, rfl, .inl hmem⟩

theorem fallsBack_of_mem_stack (recorded : Option LiveFrame) (height : Nat) {type : RefType}
    (h : type = .object ClassName.throwable ∨ .object type ∈ recordedStack recorded height) :
    FallsBack recorded type := by
  refine h.imp_right fun hmem => ?_
  cases recorded with
  | none => cases hmem
  | some r =>
    rw [recordedStack] at hmem
    split at hmem
    · exact ⟨r, rfl, .inr hmem⟩
    · cases hmem

/-! ## Places -/

theorem mergeAll_nil (others recorded : List LiveType) : a.mergeAll [] others recorded = [] := by
  simp [mergeAll]

theorem mergeAll_nil_right (types recorded : List LiveType) :
    a.mergeAll types [] recorded = types := by
  simp [mergeAll]

theorem mergeAll_cons (t u : LiveType) (types others recorded : List LiveType) :
    a.mergeAll (t :: types) (u :: others) recorded =
      a.merge t u recorded.head? :: a.mergeAll types others recorded.tail := by
  cases recorded <;> simp [mergeAll, List.replicate_succ]

theorem length_mergeAll : ∀ {types others recorded : List LiveType},
    (a.mergeAll types others recorded).length = types.length
  | [], _, _ => by rw [mergeAll_nil]
  | _ :: _, [], _ => by rw [mergeAll_nil_right]
  | _ :: _, _ :: _, _ => by rw [mergeAll_cons, List.length_cons, length_mergeAll, List.length_cons]

/-- Merged frames are made place by place, and nothing on their stacks is unusable. -/
theorem mergeFrames_eq_ok {frame incoming merged : LiveFrame} {recorded : Option LiveFrame}
    (h : a.mergeFrames frame incoming recorded = .ok merged) :
    frame.stack.length = incoming.stack.length ∧
      merged = ⟨a.mergeAll frame.locals incoming.locals (recordedLocals recorded),
        a.mergeAll frame.stack incoming.stack (recordedStack recorded frame.stack.length)⟩ ∧
      .top ∉ merged.stack := by
  unfold mergeFrames at h
  obtain ⟨hheight, h⟩ := Success.check_eq_ok.mp h
  obtain ⟨htop, h⟩ := Success.check_eq_ok.mp h
  rw [ne_eq, Decidable.not_not] at hheight
  obtain rfl := Except.ok.inj h
  refine ⟨hheight, ?_, fun hmem => htop (List.contains_iff_mem.mpr hmem)⟩
  cases recorded <;> rfl

/-! ## What merging keeps -/

theorem merge_self (t : LiveType) (recorded : Option LiveType) : a.merge t t recorded = t :=
  if_pos rfl

/-- Values of width two are only merged with values of the same type. -/
theorem eq_of_width_merge {t u : LiveType} {recorded : Option LiveType}
    (h : (a.merge t u recorded).width = 2) : t = u := by
  unfold merge at h
  split at h
  · next heq => exact heq
  split at h <;> cases h

/-- Values that can still be used after a merge have kept their width. -/
theorem width_merge {t u : LiveType} {recorded : Option LiveType}
    (h : a.merge t u recorded ≠ .top) :
    (a.merge t u recorded).width = t.width ∧ (a.merge t u recorded).width = u.width := by
  unfold merge at h ⊢
  split at h
  · next heq =>
    subst heq
    rw [if_pos rfl]
    exact ⟨rfl, rfl⟩
  · next hne =>
    rw [if_neg hne]
    split at h
    · exact ⟨rfl, rfl⟩
    · exact ⟨rfl, rfl⟩
    · exact ⟨rfl, rfl⟩
    · exact absurd rfl h

theorem slots_mergeAll : ∀ {types others recorded : List LiveType},
    types.length = others.length → .top ∉ a.mergeAll types others recorded →
      VerificationType.slots (a.mergeAll types others recorded) = VerificationType.slots types ∧
        VerificationType.slots (a.mergeAll types others recorded) = VerificationType.slots others
  | [], [], _, _, _ => by
    rw [mergeAll_nil]
    exact ⟨rfl, rfl⟩
  | t :: types, u :: others, recorded, hlength, htop => by
    rw [mergeAll_cons] at htop ⊢
    obtain ⟨hne, htop⟩ := not_or.mp (mt List.mem_cons.mpr htop)
    obtain ⟨ht, hu⟩ := width_merge (Ne.symm hne)
    obtain ⟨htypes, hothers⟩ := slots_mergeAll (Nat.succ.inj hlength) htop
    exact ⟨congrArg₂ (· + ·) ht htypes, congrArg₂ (· + ·) hu hothers⟩

/-- The stack of a merged frame takes as many slots as those of both sides. -/
theorem stackSize_of_mergeFrames {frame incoming merged : LiveFrame}
    {recorded : Option LiveFrame} (h : a.mergeFrames frame incoming recorded = .ok merged) :
    frame.stackSize = merged.stackSize ∧ incoming.stackSize = merged.stackSize := by
  obtain ⟨hheight, rfl, htop⟩ := mergeFrames_eq_ok h
  obtain ⟨hframe, hincoming⟩ := slots_mergeAll hheight htop
  exact ⟨hframe.symm, hincoming.symm⟩

theorem isSpread_mergeAll : ∀ {types others recorded : List LiveType},
    types.length = others.length → VerificationType.IsSpread types →
      VerificationType.IsSpread others →
        VerificationType.IsSpread (a.mergeAll types others recorded)
  | [], _, _, _, _, _ => by
    rw [mergeAll_nil]
    exact VerificationType.isSpread_of_forall nofun
  | t :: types, u :: others, recorded, hlength, htypes, hothers => by
    obtain ⟨ht, htypes⟩ := VerificationType.isSpread_cons.mp htypes
    obtain ⟨hu, hothers⟩ := VerificationType.isSpread_cons.mp hothers
    rw [mergeAll_cons]
    refine VerificationType.isSpread_cons.mpr ⟨fun hwide => ?_,
      isSpread_mergeAll (Nat.succ.inj hlength) htypes hothers⟩
    obtain rfl := eq_of_width_merge hwide
    rw [merge_self] at hwide
    obtain ⟨rest, rfl⟩ := List.head?_eq_some_iff.mp (ht hwide)
    obtain ⟨rest', rfl⟩ := List.head?_eq_some_iff.mp (hu hwide)
    rw [mergeAll_cons, merge_self, List.head?_cons]

variable {good : LiveType → Prop} {allowed : RefType → Prop}

theorem mergeAll_holds
    (hmerge : ∀ {t u : LiveType} {recorded : Option LiveType}, good t → good u →
      allowed (fallback recorded) → good (a.merge t u recorded)) :
    ∀ {types others recorded : List LiveType}, (∀ t ∈ types, good t) → (∀ t ∈ others, good t) →
      (∀ type, type = .object ClassName.throwable ∨ .object type ∈ recorded → allowed type) →
        ∀ t ∈ a.mergeAll types others recorded, good t
  | [], _, _, htypes, _, _ => by rwa [mergeAll_nil]
  | _ :: _, [], _, htypes, _, _ => by rwa [mergeAll_nil_right]
  | t :: types, u :: others, recorded, htypes, hothers, hrecorded => by
    obtain ⟨ht, htypes⟩ := List.forall_mem_cons.mp htypes
    obtain ⟨hu, hothers⟩ := List.forall_mem_cons.mp hothers
    rw [mergeAll_cons]
    refine List.forall_mem_cons.mpr ⟨hmerge ht hu (hrecorded _ (fallback_head? recorded)), ?_⟩
    exact mergeAll_holds hmerge htypes hothers fun type htype =>
      hrecorded type (htype.imp_right List.mem_of_mem_tail)

/-- Merging frames keeps what merging types keeps, given types to which it may fall back. -/
theorem mergeFrames_holds (allowed : RefType → Prop)
    (hmerge : ∀ {t u : LiveType} {recorded : Option LiveType}, good t → good u →
      allowed (fallback recorded) → good (a.merge t u recorded))
    {slots : Nat} {frame incoming merged : LiveFrame} {recorded : Option LiveFrame}
    (hframe : frame.Holds good slots) (hincoming : incoming.Holds good slots)
    (hrecorded : ∀ type, FallsBack recorded type → allowed type)
    (h : a.mergeFrames frame incoming recorded = .ok merged) : merged.Holds good slots := by
  obtain ⟨-, rfl, -⟩ := mergeFrames_eq_ok h
  have hlength : frame.locals.length = incoming.locals.length :=
    hframe.slots.trans hincoming.slots.symm
  refine ⟨length_mergeAll.trans hframe.slots,
    isSpread_mergeAll hlength hframe.spread hincoming.spread, ?_, ?_⟩
  · exact mergeAll_holds hmerge hframe.locals hincoming.locals
      fun type htype => hrecorded type (fallsBack_of_mem_locals recorded htype)
  · exact mergeAll_holds hmerge hframe.stack hincoming.stack
      fun type htype => hrecorded type (fallsBack_of_mem_stack recorded frame.stack.length htype)

end ClassText.Ancestry
