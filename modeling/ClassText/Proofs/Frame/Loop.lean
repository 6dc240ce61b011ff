import ClassText.Frame.Flow
import ClassText.Proofs.Success

/-!
# The loop that follows blocks

The loop has no limit (`Flow.loop?`). It comes to an end exactly if a limit can be
found with which following blocks comes to an end, and then with the same result
(`Flow.loop?_eq_some_iff`). So what holds of `Flow.settle` for all limits holds of
the loop, and that its first visits are counted is of no account (`Flow.loop_eq`).

What a limit adds is one fault of its own. No block fails with that one, since
what fails in a block fails at a label.
-/

namespace ClassText

namespace Flow

variable {flow flow' : Flow} {state state' settled : FlowState} {label : Label}
  {rest : List Label} {visits : Nat} {e : FlowFault} {result : Except FlowFault FlowState}

/-- What stands for a loop that has not ended. -/
abbrev unsettledFault : FlowFault := ⟨none, .unsettled⟩

/-! ## Faults of blocks -/

theorem atLabel_eq_error {α : Type} {label : Label} {result : Except FrameFault α} {e : FlowFault}
    (h : atLabel label result = .error e) : e.label = some label := by
  cases result with
  | ok a => cases h
  | error fault =>
    cases h
    rfl

/-- What fails in a block fails at one of its labels. -/
theorem isSome_label_of_followBlock {block : Block} {frame : LiveFrame} {e : FlowFault}
    (h : flow.followBlock state block frame = .error e) : e.label.isSome := by
  unfold followBlock at h
  rcases Success.bind_eq_error.mp h with h | ⟨⟨middle, last⟩, -, h⟩
  · obtain ⟨⟨before, frame⟩, label, -, h⟩ := Success.exists_of_foldlM_eq_error h
    rw [atLabel_eq_error h, Option.isSome_some]
  · rw [atLabel_eq_error h, Option.isSome_some]

theorem step_ne_unsettled : flow.step state label rest ≠ .error unsettledFault := by
  intro h
  unfold step at h
  dsimp only at h
  split at h
  · cases isSome_label_of_followBlock h
  · cases h

/-! ## With a limit -/

theorem settle_of_nil (h : state.pending = []) (visits : Nat) :
    flow.settle visits state = .ok state := by
  cases visits with
  | zero => rw [settle, h, List.isEmpty_nil, if_pos rfl]
  | succ visits => simp only [settle, h]

theorem settle_succ (hpending : state.pending = label :: rest) (visits : Nat) :
    flow.settle (visits + 1) state =
      match flow.step state label rest with
      | .ok state' => flow.settle visits state'
      | .error e => .error e := by
  cases hstep : flow.step state label rest <;> simp only [settle, hpending, hstep]

/-- Once there is a result, more visits do not change it. -/
theorem settle_of_le {limit : Nat} (h : flow.settle visits state = result)
    (hsettled : result ≠ .error unsettledFault) (hle : visits ≤ limit) :
    flow.settle limit state = result := by
  induction visits generalizing state limit with
  | zero =>
    rw [settle] at h
    split at h
    · next hnil => rw [settle_of_nil (List.isEmpty_iff.mp hnil), h]
    · exact (hsettled h.symm).elim
  | succ visits ih =>
    obtain ⟨limit, rfl⟩ := Nat.exists_eq_add_of_le' (Nat.le_of_add_left_le hle)
    cases hpending : state.pending with
    | nil => rw [settle_of_nil hpending, ← h, settle_of_nil hpending]
    | cons label rest =>
      rw [settle_succ hpending] at h ⊢
      cases hstep : flow.step state label rest with
      | ok next =>
        rw [hstep] at h
        exact ih h (Nat.le_of_succ_le_succ hle)
      | error e =>
        rw [hstep] at h
        exact h

/-- From a state to which a step comes back, no number of visits is enough. -/
theorem settle_of_circle (hpending : state.pending = label :: rest)
    (hstep : flow.step state label rest = .ok state) (visits : Nat) :
    flow.settle visits state = .error unsettledFault := by
  induction visits with
  | zero => rw [settle, hpending, List.isEmpty_cons, if_neg Bool.false_ne_true]
  | succ visits ih => rw [settle_succ hpending, hstep]; exact ih

/-! ## Without a limit -/

theorem loop?_of_nil (h : state.pending = []) : flow.loop? state = some (.ok state) := by
  rw [loop?, h]

theorem loop?_of_cons (hpending : state.pending = label :: rest) :
    flow.loop? state =
      match flow.step state label rest with
      | .ok state' => flow.loop? state'
      | .error e => some (.error e) := by
  cases hstep : flow.step state label rest with
  | ok next =>
    show flow.loop? state = flow.loop? next
    rw [loop?]
    simp only [hpending, hstep]
  | error e =>
    show flow.loop? state = some (.error e)
    rw [loop?]
    simp only [hpending, hstep]

/-- The result of the loop is there after some number of visits. -/
theorem exists_visits_of_loop? (h : flow.loop? state = some result) :
    ∃ visits, flow.settle visits state = result := by
  refine loop?.partial_correctness flow
    (fun state result => ∃ visits, flow.settle visits state = result) ?_ state result h
  intro loop ih state result h
  split at h
  · next hnil =>
    cases h
    exact ⟨0, settle_of_nil hnil 0⟩
  · next label rest hpending =>
    split at h
    · next next hstep =>
      obtain ⟨visits, hvisits⟩ := ih next result h
      refine ⟨visits + 1, ?_⟩
      rw [settle_succ hpending, hstep]
      exact hvisits
    · next e hstep =>
      cases h
      refine ⟨1, ?_⟩
      rw [settle_succ hpending, hstep]

/-- A result that is there after some number of visits is that of the loop. -/
theorem loop?_of_settle (h : flow.settle visits state = result)
    (hsettled : result ≠ .error unsettledFault) : flow.loop? state = some result := by
  induction visits generalizing state with
  | zero =>
    rw [settle] at h
    split at h
    · next hnil =>
      rw [loop?_of_nil (List.isEmpty_iff.mp hnil), h]
    · exact (hsettled h.symm).elim
  | succ visits ih =>
    cases hpending : state.pending with
    | nil => rw [loop?_of_nil hpending, ← h, settle_of_nil hpending]
    | cons label rest =>
      rw [settle_succ hpending] at h
      rw [loop?_of_cons hpending]
      cases hstep : flow.step state label rest with
      | ok next =>
        rw [hstep] at h
        exact ih h
      | error e =>
        rw [hstep] at h
        exact congrArg some h

theorem loop?_ne_unsettled : flow.loop? state ≠ some (.error unsettledFault) := by
  intro h
  refine loop?.partial_correctness flow (fun _ result => result ≠ .error unsettledFault) ?_
    state _ h rfl
  intro loop ih state result h
  split at h
  · cases h
    intro heq
    cases heq
  · split at h
    · exact ih _ _ h
    · next hstep =>
      cases h
      exact fun heq => step_ne_unsettled (heq ▸ hstep)

/-- The loop ends exactly if following blocks ends within some limit, and with the same result. -/
theorem loop?_eq_some_iff :
    flow.loop? state = some result ↔
      ∃ visits, flow.settle visits state = result ∧ result ≠ .error unsettledFault := by
  constructor
  · intro h
    obtain ⟨visits, hvisits⟩ := exists_visits_of_loop? h
    exact ⟨visits, hvisits, fun heq => loop?_ne_unsettled (heq ▸ h)⟩
  · rintro ⟨visits, hvisits, hsettled⟩
    exact loop?_of_settle hvisits hsettled

theorem loop?_of_circle (hpending : state.pending = label :: rest)
    (hstep : flow.step state label rest = .ok state) : flow.loop? state = none :=
  Option.eq_none_iff_forall_ne_some.mpr fun _ h => by
    obtain ⟨visits, rfl, hsettled⟩ := loop?_eq_some_iff.mp h
    exact hsettled (settle_of_circle hpending hstep visits)

/-- Counting the first visits makes no difference. -/
theorem loop_eq : flow.loop state = (flow.loop? state).getD (.error unsettledFault) := by
  rw [loop]
  split
  · rfl
  · next result hne =>
    rw [loop?_of_settle rfl hne, Option.getD_some]

theorem loop_eq_ok_iff :
    flow.loop state = .ok settled ↔ ∃ visits, flow.settle visits state = .ok settled := by
  rw [loop_eq]
  constructor
  · intro h
    cases hloop : flow.loop? state with
    | none =>
      rw [hloop] at h
      cases h
    | some result =>
      rw [hloop, Option.getD_some] at h
      obtain ⟨visits, hvisits, -⟩ := loop?_eq_some_iff.mp hloop
      exact ⟨visits, hvisits.trans h⟩
  · rintro ⟨visits, hvisits⟩
    rw [loop?_of_settle hvisits nofun, Option.getD_some]

/-- What holds at first and is kept when a block is followed holds in the end. -/
theorem loop_induction {P : FlowState → Prop}
    (hstep : ∀ {state state' : FlowState} {label : Label} {rest : List Label}, P state →
      state.pending = label :: rest → flow.step state label rest = .ok state' → P state')
    (h : P state) (hloop : flow.loop state = .ok settled) :
    P settled ∧ settled.pending = [] := by
  obtain ⟨visits, hvisits⟩ := loop_eq_ok_iff.mp hloop
  clear hloop
  induction visits generalizing state with
  | zero =>
    rw [settle] at hvisits
    split at hvisits
    · next hnil =>
      cases hvisits
      exact ⟨h, List.isEmpty_iff.mp hnil⟩
    · cases hvisits
  | succ visits ih =>
    rw [settle] at hvisits
    split at hvisits
    · next hnil =>
      cases hvisits
      exact ⟨h, hnil⟩
    · next label rest hpending =>
      split at hvisits
      · next middle hmiddle => exact ih (hstep h hpending hmiddle) hvisits
      · cases hvisits

/-- The fault that stands for a loop without end comes of nothing else. -/
theorem loop_eq_unsettled_iff :
    flow.loop state = .error unsettledFault ↔ flow.loop? state = none := by
  rw [loop_eq]
  cases hloop : flow.loop? state with
  | none => exact ⟨fun _ => rfl, fun _ => rfl⟩
  | some result =>
    rw [Option.getD_some]
    exact ⟨fun h => (loop?_ne_unsettled (h ▸ hloop)).elim, nofun⟩

/-- Where limits make no difference, the loop makes none. -/
theorem loop_congr {start start' : FlowState}
    (h : ∀ visits, flow.settle visits start = flow'.settle visits start') :
    flow.loop start = flow'.loop start' := by
  have hloop : flow.loop? start = flow'.loop? start' := by
    refine Option.ext fun result => ?_
    rw [loop?_eq_some_iff, loop?_eq_some_iff]
    simp only [h]
  rw [loop_eq, loop_eq, hloop]

end Flow

end ClassText
