import Mathlib.Data.List.Forall2

/-!
# Results that succeed

What it takes for a result that is put together from others to be there: all
the parts are there as well. What holds of the parts and is kept when they are put
together also holds of lists of results, whatever else comes with these
(`mapM_closed`, `foldlM_closed`).
-/

namespace ClassText.Success

variable {ε ε' α β : Type}

theorem bind_eq_ok {result : Except ε α} {next : α → Except ε β} {b : β} :
    result >>= next = .ok b ↔ ∃ a, result = .ok a ∧ next a = .ok b := by
  constructor
  · intro h
    cases result with
    | error e => cases h
    | ok a => exact ⟨a, rfl, h⟩
  · rintro ⟨a, rfl, h⟩
    exact h

theorem bind_eq_error {result : Except ε α} {next : α → Except ε β} {e : ε} :
    result >>= next = .error e ↔
      result = .error e ∨ ∃ a, result = .ok a ∧ next a = .error e := by
  cases result with
  | error e' =>
    rw [Except.error.injEq]
    exact ⟨fun h => .inl (Except.error.inj h),
      fun h => h.elim (congrArg _) fun ⟨_, h, _⟩ => nomatch h⟩
  | ok a =>
    refine ⟨fun h => .inr ⟨a, rfl, h⟩, ?_⟩
    rintro (h | ⟨b, hb, h⟩)
    · cases h
    · cases hb
      exact h

/-- A fold that fails does so at one of its items. -/
theorem exists_of_foldlM_eq_error {step : β → α → Except ε β} {e : ε} :
    ∀ {items : List α} {start : β}, items.foldlM step start = .error e →
      ∃ before, ∃ a ∈ items, step before a = .error e
  | a :: items, start, h => by
    rw [List.foldlM_cons] at h
    rcases bind_eq_error.mp h with h | ⟨middle, -, h⟩
    · exact ⟨start, a, List.mem_cons_self, h⟩
    · obtain ⟨before, b, hb, h⟩ := exists_of_foldlM_eq_error h
      exact ⟨before, b, List.mem_cons_of_mem _ hb, h⟩

theorem map_eq_ok {result : Except ε α} {f : α → β} {b : β} :
    result.map f = .ok b ↔ ∃ a, result = .ok a ∧ f a = b := by
  cases result <;> simp [Except.map]

theorem toOption_eq_some {result : Except ε α} {a : α} :
    result.toOption = some a ↔ result = .ok a := by
  cases result <;> simp [Except.toOption]

theorem mapError_eq_ok {result : Except ε α} {rename : ε → ε'} {a : α} :
    result.mapError rename = .ok a ↔ result = .ok a := by
  cases result <;> simp [Except.mapError]

/-- A result behind a check that throws. -/
theorem check_eq_ok {c : Prop} [Decidable c] {e : ε} {result : Except ε α} {a : α} :
    (if c then .error e else result) = .ok a ↔ ¬c ∧ result = .ok a := by
  split <;> simp_all

theorem exists_forall₂ {f : α → Except ε β} :
    ∀ {items : List α}, (∀ a ∈ items, ∃ b, f a = .ok b) →
      ∃ results, List.Forall₂ (fun a b => f a = .ok b) items results
  | [], _ => ⟨[], .nil⟩
  | a :: items, h => by
    obtain ⟨⟨b, hb⟩, hrest⟩ := List.forall_mem_cons.mp h
    obtain ⟨bs, hbs⟩ := exists_forall₂ hrest
    exact ⟨b :: bs, .cons hb hbs⟩

/-- A list of results succeeds item by item. -/
theorem mapM_eq_ok {f : α → Except ε β} :
    ∀ {items : List α} {results : List β},
      items.mapM f = .ok results ↔ List.Forall₂ (fun a b => f a = .ok b) items results
  | [], results => by
    rw [List.mapM_nil, List.forall₂_nil_left_iff]
    exact ⟨fun h => (Except.ok.inj h).symm, fun h => by rw [h]; rfl⟩
  | a :: items, results => by
    rw [List.mapM_cons, bind_eq_ok, List.forall₂_cons_left_iff]
    constructor
    · rintro ⟨b, hb, hrest⟩
      obtain ⟨bs, hbs, heq⟩ := bind_eq_ok.mp hrest
      exact ⟨b, bs, hb, mapM_eq_ok.mp hbs, (Except.ok.inj heq).symm⟩
    · rintro ⟨b, bs, hb, hbs, rfl⟩
      exact ⟨b, hb, bind_eq_ok.mpr ⟨bs, mapM_eq_ok.mpr hbs, rfl⟩⟩

/-- A list of results fails with the error of the first item that fails. -/
theorem mapM_eq_error {f : α → Except ε β} {e : ε} :
    ∀ {items : List α}, items.mapM f = .error e ↔
      ∃ (i : Nat) (a : α), items[i]? = some a ∧ f a = .error e ∧
        ∀ j < i, ∀ b, items[j]? = some b → ∃ result, f b = .ok result
  | [] => by
    rw [List.mapM_nil]
    exact ⟨fun h => (nomatch h), fun ⟨_, _, h, _⟩ => (nomatch h)⟩
  | a :: items => by
    rw [List.mapM_cons]
    cases ha : f a with
    | error e' =>
      constructor
      · intro h
        obtain rfl := Except.error.inj h
        exact ⟨0, a, rfl, ha, fun j hj => absurd hj (Nat.not_lt_zero j)⟩
      · rintro ⟨i, b, hb, hfail, hbefore⟩
        cases i with
        | zero =>
          obtain rfl := Option.some.inj hb
          rw [show e' = e from Except.error.inj (ha.symm.trans hfail)]
          rfl
        | succ i =>
          obtain ⟨result, hresult⟩ := hbefore 0 (Nat.succ_pos i) a rfl
          rw [ha] at hresult
          cases hresult
    | ok first =>
      have hrest : (do let rest ← items.mapM f; pure (first :: rest) : Except ε (List β)) =
          .error e ↔ items.mapM f = .error e := by
        cases items.mapM f with
        | error e' => exact Iff.rfl
        | ok rest => exact ⟨fun h => (nomatch h), fun h => (nomatch h)⟩
      refine hrest.trans (mapM_eq_error.trans ⟨?_, ?_⟩)
      · rintro ⟨i, b, hb, hfail, hbefore⟩
        refine ⟨i + 1, b, hb, hfail, fun j hj c hc => ?_⟩
        cases j with
        | zero => exact ⟨first, Option.some.inj hc ▸ ha⟩
        | succ j => exact hbefore j (Nat.lt_of_succ_lt_succ hj) c hc
      · rintro ⟨i, b, hb, hfail, hbefore⟩
        cases i with
        | zero =>
          obtain rfl := Option.some.inj hb
          rw [ha] at hfail
          cases hfail
        | succ i =>
          exact ⟨i, b, hb, hfail, fun j hj c hc => hbefore (j + 1) (Nat.succ_lt_succ hj) c hc⟩

/-- If every item can be told from its result, then so can the list. -/
theorem map_eq_of_forall₂ {R : α → β → Prop} (back : β → α) (P : β → Prop)
    (hback : ∀ a b, R a b → back b = a ∧ P b) :
    ∀ {items : List α} {results : List β}, List.Forall₂ R items results →
      results.map back = items ∧ ∀ b ∈ results, P b
  | _, _, .nil => ⟨rfl, fun b hb => (nomatch hb)⟩
  | _, _, .cons hab hrest => by
    obtain ⟨hhead, hp⟩ := hback _ _ hab
    obtain ⟨htail, hall⟩ := map_eq_of_forall₂ back P hback hrest
    exact ⟨by rw [List.map_cons, hhead, htail], List.forall_mem_cons.mpr ⟨hp, hall⟩⟩

theorem exists_of_mem_right {R : α → β → Prop} :
    ∀ {items : List α} {results : List β}, List.Forall₂ R items results →
      ∀ b ∈ results, ∃ a, R a b
  | _, _, .nil, b, hb => (nomatch hb)
  | _, _, .cons hab hrest, b, hb => by
    rcases List.mem_cons.mp hb with rfl | hb
    · exact ⟨_, hab⟩
    · exact exists_of_mem_right hrest b hb

/-- Going from list to list in two steps is taking both steps for every item. -/
theorem forall₂_steps {γ : Type} {R : α → β → Prop} {S : β → γ → Prop} :
    ∀ {items : List α} {middle : List β} {results : List γ}, List.Forall₂ R items middle →
      List.Forall₂ S middle results → List.Forall₂ (fun a c => ∃ b, R a b ∧ S b c) items results
  | _, _, _, .nil, .nil => .nil
  | _, _, _, .cons hab hfirst, .cons hbc hsecond =>
    .cons ⟨_, hab, hbc⟩ (forall₂_steps hfirst hsecond)

theorem exists_middle {γ : Type} {R : α → β → Prop} {S : β → γ → Prop} :
    ∀ {items : List α} {results : List γ},
      List.Forall₂ (fun a c => ∃ b, R a b ∧ S b c) items results →
        ∃ middle, List.Forall₂ R items middle ∧ List.Forall₂ S middle results
  | _, _, .nil => ⟨[], .nil, .nil⟩
  | _, _, .cons ⟨b, hab, hbc⟩ hrest => by
    obtain ⟨middle, hfirst, hsecond⟩ := exists_middle hrest
    exact ⟨b :: middle, .cons hab hfirst, .cons hbc hsecond⟩

/-- A list of options is there item by item. -/
theorem mapM_eq_some {f : α → Option β} :
    ∀ {items : List α} {results : List β},
      items.mapM f = some results ↔ List.Forall₂ (fun a b => f a = some b) items results
  | [], results => by
    rw [List.mapM_nil, List.forall₂_nil_left_iff]
    exact ⟨fun h => (Option.some.inj h).symm, fun h => by rw [h]; rfl⟩
  | a :: items, results => by
    rw [List.mapM_cons, List.forall₂_cons_left_iff]
    constructor
    · intro h
      obtain ⟨b, hb, hrest⟩ := Option.bind_eq_some_iff.mp h
      obtain ⟨bs, hbs, heq⟩ := Option.bind_eq_some_iff.mp hrest
      exact ⟨b, bs, hb, mapM_eq_some.mp hbs, (Option.some.inj heq).symm⟩
    · rintro ⟨b, bs, hb, hbs, rfl⟩
      exact Option.bind_eq_some_iff.mpr
        ⟨b, hb, Option.bind_eq_some_iff.mpr ⟨bs, mapM_eq_some.mpr hbs, rfl⟩⟩

/-! ## Results that carry over -/

/-- If the first result is there, so is the second one, and it is the same. What errors become is
left open. -/
def Carries (result other : Except ε α) : Prop :=
  ∀ a, result = .ok a → other = .ok a

theorem Carries.refl (result : Except ε α) : Carries result result :=
  fun _ h => h

theorem carries_error {e : ε} {other : Except ε α} : Carries (.error e) other :=
  fun _ h => nomatch h

theorem Carries.bind {result other : Except ε α} {next next' : α → Except ε β}
    (h : Carries result other) (hnext : ∀ a, result = .ok a → Carries (next a) (next' a)) :
    Carries (result >>= next) (other >>= next') := by
  intro b hb
  obtain ⟨a, ha, hb⟩ := bind_eq_ok.mp hb
  exact bind_eq_ok.mpr ⟨a, h a ha, hnext a ha b hb⟩

theorem Carries.mapError {result other : Except ε α} (h : Carries result other)
    (rename : ε → ε') : Carries (result.mapError rename) (other.mapError rename) :=
  fun a ha => mapError_eq_ok.mpr (h a (mapError_eq_ok.mp ha))

theorem carries_mapM {f f' : α → Except ε β} (items : List α)
    (h : ∀ a, Carries (f a) (f' a)) : Carries (items.mapM f) (items.mapM f') :=
  fun _ hresults => mapM_eq_ok.mpr ((mapM_eq_ok.mp hresults).imp fun a b => h a b)

theorem carries_foldlM {step step' : β → α → Except ε β} (items : List α) (start : β)
    (h : ∀ b a, Carries (step b a) (step' b a)) :
    Carries (items.foldlM step start) (items.foldlM step' start) := by
  induction items generalizing start with
  | nil => exact .refl _
  | cons a items ih =>
    rw [List.foldlM_cons, List.foldlM_cons]
    exact (h start a).bind fun b _ => ih b

/-! ## What is kept when results are put together -/

section Closed

variable {m : Type → Type} [Monad m] {P : (α : Type) → m α → Prop}
  (hpure : ∀ {α : Type} (a : α), P α (pure a))
  (hbind : ∀ {α β : Type} {x : m α} {f : α → m β}, P α x → (∀ a, P β (f a)) → P β (x >>= f))
include hpure hbind

theorem mapM_closed [LawfulMonad m] {α β : Type} {f : α → m β} :
    ∀ {items : List α}, (∀ a ∈ items, P β (f a)) → P (List β) (items.mapM f)
  | [], _ => hpure []
  | a :: items, h => by
    obtain ⟨hfirst, hrest⟩ := List.forall_mem_cons.mp h
    rw [List.mapM_cons]
    exact hbind hfirst fun _ => hbind (mapM_closed hrest) fun _ => hpure _

theorem foldlM_closed {α β : Type} {f : β → α → m β} :
    ∀ {items : List α} (b : β), (∀ a ∈ items, ∀ b, P β (f b a)) → P β (items.foldlM f b)
  | [], b, _ => hpure b
  | a :: items, b, h => by
    obtain ⟨hfirst, hrest⟩ := List.forall_mem_cons.mp h
    rw [List.foldlM_cons]
    exact hbind (hfirst b) fun b => foldlM_closed b hrest

end Closed

/-! ## Results that fail in some ways only -/

/-- If the result is an error, it is one with the property. -/
def FailsWith (P : ε → Prop) (result : Except ε α) : Prop :=
  ∀ e, result = .error e → P e

section FailsWith

variable {P : ε → Prop}

@[simp]
theorem failsWith_ok {a : α} : FailsWith P (.ok a : Except ε α) := nofun

@[simp]
theorem failsWith_pure {a : α} : FailsWith P (pure a : Except ε α) := nofun

@[simp]
theorem failsWith_error {e : ε} : FailsWith P (.error e : Except ε α) ↔ P e :=
  ⟨fun h => h e rfl, fun h _ heq => Except.error.inj heq ▸ h⟩

@[simp]
theorem failsWith_throw {e : ε} : FailsWith P (throw e : Except ε α) ↔ P e :=
  failsWith_error

@[simp]
theorem failsWith_bind {result : Except ε α} {next : α → Except ε β} :
    FailsWith P (result >>= next) ↔
      FailsWith P result ∧ ∀ a, result = .ok a → FailsWith P (next a) := by
  cases result with
  | error e => exact ⟨fun h => ⟨fun e' he => h e' (congrArg _ (Except.error.inj he)), nofun⟩,
      fun h e' he => h.1 e' (congrArg _ (Except.error.inj he))⟩
  | ok a => exact ⟨fun h => ⟨nofun, fun _ ha => Except.ok.inj ha ▸ h⟩, fun h => h.2 a rfl⟩

@[simp]
theorem failsWith_map {result : Except ε α} {f : α → β} :
    FailsWith P (f <$> result) ↔ FailsWith P result := by
  rw [map_eq_pure_bind, failsWith_bind]
  simp

@[simp]
theorem failsWith_ite {c : Prop} [Decidable c] {result other : Except ε α} :
    FailsWith P (if c then result else other) ↔
      (c → FailsWith P result) ∧ (¬c → FailsWith P other) := by
  split <;> simp_all

theorem FailsWith.foldlM {step : β → α → Except ε β} {items : List α} {b : β}
    (h : ∀ a ∈ items, ∀ b, FailsWith P (step b a)) : FailsWith P (items.foldlM step b) :=
  foldlM_closed (P := fun _ => FailsWith P) (fun _ => failsWith_pure)
    (fun hx hf => failsWith_bind.mpr ⟨hx, fun a _ => hf a⟩) b h

theorem FailsWith.mapM {f : α → Except ε β} {items : List α}
    (h : ∀ a ∈ items, FailsWith P (f a)) : FailsWith P (items.mapM f) :=
  mapM_closed (P := fun _ => FailsWith P) (fun _ => failsWith_pure)
    (fun hx hf => failsWith_bind.mpr ⟨hx, fun a _ => hf a⟩) h

theorem FailsWith.mapError {Q : ε' → Prop} {result : Except ε α} {rename : ε → ε'}
    (h : FailsWith P result) (hrename : ∀ e, P e → Q (rename e)) :
    FailsWith Q (result.mapError rename) := by
  cases result with
  | error e => exact failsWith_error.mpr (hrename e (h e rfl))
  | ok a => exact failsWith_ok

end FailsWith

end ClassText.Success
