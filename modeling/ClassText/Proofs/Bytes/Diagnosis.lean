import ClassText.Proofs.Bytes.Takes

/-!
# What readers say when they fail

There are two things to say of a reader that fails, whatever the bytes. The fault is one of the
bytes: they are malformed, and no other error is raised. And if the bytes are only cut
short, so that more of them could have been read, then the reader tells that they end too
early, and nothing else: it has read all that is there as it would have read it in
front of the rest.

Both together (`ByteReader.Diagnoses`) are kept by everything that puts readers
together. By the law of readers, what two of them take one after the other falls apart
into what the first and what the second one takes; so bytes that are cut short are cut
short for one of the two.
-/

namespace ClassText

open Success

/-- The error says that bytes are malformed. -/
def ClassError.IsMalformation (e : ClassError) : Prop :=
  ∃ cause, e = .malformed cause

namespace ByteReader

variable {α β : Type}

/-- The reader blames the bytes for every failure, and bytes that are cut short for ending too
early. -/
structure Diagnoses (reader : ByteReader α) : Prop where
  blames : ∀ bytes, FailsWith ClassError.IsMalformation (reader.run bytes)
  runsOut : ∀ {used part : Bytes} {a : α}, reader.Takes used a → part <+: used → part ≠ used →
    reader.run part = .error (.malformed .unexpectedEnd)

/-! ## How readers are put together -/

theorem diagnoses_pure (a : α) : (pure a : ByteReader α).Diagnoses where
  blames _ := failsWith_ok
  runsOut h hpart hne := by
    obtain ⟨rfl, -⟩ := takes_pure.mp h
    exact (hne (List.prefix_nil.mp hpart)).elim

theorem diagnoses_malformed (cause : Malformation) :
    (fail (.malformed cause) : ByteReader α).Diagnoses where
  blames _ := failsWith_error.mpr ⟨cause, rfl⟩
  runsOut h := (takes_fail h).elim

theorem diagnoses_ofExcept {result : Except ClassError α}
    (h : FailsWith ClassError.IsMalformation result) : (ofExcept result).Diagnoses := by
  cases result with
  | ok a => exact diagnoses_pure a
  | error e =>
    obtain ⟨cause, rfl⟩ := failsWith_error.mp h
    exact diagnoses_malformed cause

theorem Diagnoses.bind {reader : ByteReader α} {next : α → ByteReader β} (h : reader.Diagnoses)
    (hnext : ∀ a, (next a).Diagnoses) : (reader >>= next).Diagnoses where
  blames bytes := by
    rw [run_bind]
    intro e herror
    split at herror
    · next e' hrun => exact h.blames bytes e (hrun.trans (congrArg _ (Except.error.inj herror)))
    · next a rest hrun => exact (hnext a).blames rest e herror
  runsOut {used part b} htakes hpart hne := by
    obtain ⟨first, second, a, rfl, hfirst, hsecond⟩ := takes_bind.mp htakes
    have hsplit : (part <+: first ∧ part ≠ first) ∨ first <+: part := by
      rcases List.prefix_or_prefix_of_prefix hpart (List.prefix_append first second) with hp | hp
      · exact (eq_or_ne part first).elim (fun heq => .inr (heq ▸ List.prefix_rfl))
          fun hne => .inl ⟨hp, hne⟩
      · exact .inr hp
    rw [run_bind]
    rcases hsplit with ⟨hp, hshort⟩ | ⟨rest, rfl⟩
    · rw [h.runsOut hfirst hp hshort]
    · -- the first reader finds all that it takes, so it is the second one that runs out
      rw [hfirst rest]
      exact (hnext a).runsOut hsecond ((List.prefix_append_right_inj first).mp hpart)
        fun heq => hne (congrArg _ heq)

/-! ## Bytes and words -/

theorem diagnoses_byte : byte.Diagnoses where
  blames bytes := by
    cases bytes with
    | nil => exact failsWith_error.mpr ⟨_, rfl⟩
    | cons b rest => exact failsWith_ok
  runsOut {used part b} h hpart hne := by
    obtain rfl := takes_byte.mp h
    cases part with
    | nil => rfl
    | cons c part =>
      obtain ⟨rfl, hrest⟩ := List.cons_prefix_cons.mp hpart
      exact (hne (congrArg _ (List.prefix_nil.mp hrest))).elim

theorem diagnoses_take (count : Nat) : (take count).Diagnoses where
  blames bytes := by
    simp only [take]
    split
    · exact failsWith_ok
    · exact failsWith_error.mpr ⟨_, rfl⟩
  runsOut {used part bytes} h hpart hne := by
    obtain ⟨rfl, rfl⟩ := takes_take.mp h
    have hlt : part.length < used.length :=
      Nat.lt_of_le_of_ne hpart.length_le fun heq => hne (hpart.eq_of_length heq)
    simp only [take, List.length_take]
    exact if_neg (by omega)

theorem diagnoses_word16 : word16.Diagnoses :=
  diagnoses_byte.bind fun _ => diagnoses_byte.bind fun _ => diagnoses_pure _

theorem diagnoses_word32 : word32.Diagnoses :=
  diagnoses_word16.bind fun _ => diagnoses_word16.bind fun _ => diagnoses_pure _

theorem diagnoses_word64 : word64.Diagnoses :=
  diagnoses_word32.bind fun _ => diagnoses_word32.bind fun _ => diagnoses_pure _

theorem diagnoses_int8 : int8.Diagnoses := diagnoses_byte.bind fun _ => diagnoses_pure _

theorem diagnoses_int16 : int16.Diagnoses := diagnoses_word16.bind fun _ => diagnoses_pure _

theorem diagnoses_int32 : int32.Diagnoses := diagnoses_word32.bind fun _ => diagnoses_pure _

theorem diagnoses_int64 : int64.Diagnoses := diagnoses_word64.bind fun _ => diagnoses_pure _

/-! ## Lists -/

theorem timesLoop_eq_map (item : ByteReader α) : ∀ (count : Nat) (read : List α) (bytes : Bytes),
    timesLoop item count read bytes = (timesLoop item count [] bytes).map fun result =>
      (read.reverse ++ result.1, result.2)
  | 0, read, bytes => by simp [timesLoop, Except.map]
  | count + 1, read, bytes => by
    rw [timesLoop, timesLoop]
    cases item.run bytes with
    | error e => rfl
    | ok result =>
      obtain ⟨a, rest⟩ := result
      dsimp only
      rw [timesLoop_eq_map item count (a :: read), timesLoop_eq_map item count [a]]
      cases timesLoop item count [] rest <;> simp [Except.map]

theorem eq_of_run_eq {reader other : ByteReader α} (h : reader.run = other.run) :
    reader = other := by
  cases reader
  cases other
  cases h
  rfl

/-- The first item is read, and then the others. -/
theorem times_succ (count : Nat) (item : ByteReader α) :
    times (count + 1) item = do return (← item) :: (← times count item) := by
  refine eq_of_run_eq (funext fun bytes => ?_)
  simp only [times, timesLoop, run_bind, run_pure]
  cases item.run bytes with
  | error e => rfl
  | ok result =>
    obtain ⟨a, rest⟩ := result
    dsimp only
    rw [timesLoop_eq_map]
    cases timesLoop item count [] rest <;> rfl

theorem Diagnoses.times {item : ByteReader α} (h : item.Diagnoses) (count : Nat) :
    (times count item).Diagnoses := by
  induction count with
  | zero => exact diagnoses_pure []
  | succ count ih =>
    rw [times_succ]
    exact h.bind fun _ => ih.bind fun _ => diagnoses_pure _

theorem Diagnoses.counted {item : ByteReader α} (h : item.Diagnoses) : (counted item).Diagnoses :=
  diagnoses_word16.bind fun _ => h.times _

end ByteReader

end ClassText
