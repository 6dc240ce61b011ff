import ClassText.ConstantPool
import Mathlib.Data.List.Forall2

/-!
# Growth of a pool

Interning never takes a constant away and never moves one: the pool it leaves
is the pool before with texts, strings and classes behind it, whether or not it
found room for everything it wanted. So whatever was found at an index is found
there for good.

A change of a pool is described by what it ensures (`PoolChange.Ensures`): the
pool that is left has grown in any case, and a result, if there is one, is as
stated about the pool that is left. The rules below follow the way changes are
put together, so that a larger change is described by the descriptions of its
parts.
-/

namespace ClassText

/-- The kinds of constants that are interned. -/
def Constant.isInternable : Constant → Bool
  | .utf8 _ | .string _ | .classRef _ => true
  | _ => false

namespace ConstantPool

variable {pool grown : ConstantPool} {c : Constant} {i : PoolIndex}

/-- The second pool is the first one with texts, strings and classes behind it. -/
def Grows (pool grown : ConstantPool) : Prop :=
  ∃ added : List Constant, (∀ c ∈ added, c.isInternable) ∧
    grown.slots.toList = pool.slots.toList ++ added.map some

theorem Grows.refl (pool : ConstantPool) : pool.Grows pool :=
  ⟨[], by simp, by simp⟩

theorem Grows.trans {p q r : ConstantPool} (h : p.Grows q) (h' : q.Grows r) : p.Grows r := by
  obtain ⟨first, hfirst, hq⟩ := h
  obtain ⟨second, hsecond, hr⟩ := h'
  refine ⟨first ++ second, ?_, by rw [hr, hq, List.map_append, List.append_assoc]⟩
  intro c hc
  exact (List.mem_append.mp hc).elim (hfirst c) (hsecond c)

theorem get?_eq_some_iff :
    pool.get? i = some c ↔ pool.slots.toList[i.toNat]? = some (some c) := by
  rw [get?, Option.join_eq_some_iff, Array.getElem?_toList]

/-! ## What stays at an index -/

theorem Grows.get? (h : pool.Grows grown) (hc : pool.get? i = some c) :
    grown.get? i = some c := by
  obtain ⟨added, -, hslots⟩ := h
  rw [get?_eq_some_iff] at hc ⊢
  rw [hslots, List.getElem?_append_left (List.getElem?_eq_some_iff.mp hc).1, hc]

theorem Grows.text {t : String} (h : pool.Grows grown) (ht : pool.text i = .ok t) :
    grown.text i = .ok t := by
  rw [text_eq_ok_iff] at ht ⊢
  exact h.get? ht

theorem Grows.className {name : String} (h : pool.Grows grown)
    (hname : pool.className i = .ok name) : grown.className i = .ok name := by
  unfold ConstantPool.className at hname ⊢
  split at hname
  · next hclass =>
    rw [h.get? hclass]
    exact h.text hname
  · cases hname

theorem Grows.text? {t : String} (h : pool.Grows grown) (ht : pool.text? i = some t) :
    grown.text? i = some t := by
  rw [text?_eq_some_iff] at ht ⊢
  exact h.get? ht

theorem stringText?_eq_some_iff {t : String} :
    pool.stringText? i = some t ↔ ∃ j, pool.get? i = some (.string j) ∧ pool.text? j = some t := by
  unfold stringText?
  split <;> simp_all

theorem Grows.stringText? {t : String} (h : pool.Grows grown)
    (ht : pool.stringText? i = some t) : grown.stringText? i = some t := by
  rw [stringText?_eq_some_iff] at ht ⊢
  obtain ⟨j, hi, hj⟩ := ht
  exact ⟨j, h.get? hi, h.text? hj⟩

/-! ## Adding one constant -/

theorem find?_spec (h : pool.find? c = some i) : pool.get? i = some c := by
  rw [find?, Option.map_eq_some_iff] at h
  obtain ⟨k, hk, rfl⟩ := h
  obtain ⟨hlt, hc, -⟩ := Array.findIdx?_eq_some_iff_getElem.mp hk
  have hle := pool.size_le
  have hidx : (UInt16.ofNat k).toNat = k := UInt16.toNat_ofNat_of_lt (by rw [UInt16.size]; omega)
  rw [get?, hidx, Array.getElem?_eq_getElem hlt, eq_of_beq hc, Option.join_some]

theorem push_eq_ok (h : pool.push c = .ok (i, grown)) :
    i.toNat = pool.count ∧ grown.slots.toList = pool.slots.toList ++ slotsOf c := by
  unfold push at h
  split at h
  · next room =>
    simp only [Except.ok.injEq, Prod.mk.injEq] at h
    obtain ⟨rfl, rfl⟩ := h
    have hle := c.width_pos
    refine ⟨UInt16.toNat_ofNat_of_lt ?_, ?_⟩
    · rw [hasRoom, decide_eq_true_eq] at room
      rw [UInt16.size]
      omega
    · rw [add, dif_pos room, Array.toList_appendList]
  · cases h

theorem get?_push (h : pool.push c = .ok (i, grown)) : grown.get? i = some c := by
  obtain ⟨hi, hslots⟩ := push_eq_ok h
  rw [get?_eq_some_iff, hslots, hi, count, ← Array.length_toList,
    List.getElem?_append_right (Nat.le_refl _), Nat.sub_self, slotsOf, List.getElem?_cons_zero]

theorem slotsOf_of_isInternable (h : c.isInternable = true) : slotsOf c = [some c] := by
  cases c <;> first | rfl | cases h

theorem grows_of_push (hc : c.isInternable = true) (h : pool.push c = .ok (i, grown)) :
    pool.Grows grown := by
  refine ⟨[c], by simpa using hc, ?_⟩
  rw [(push_eq_ok h).2, slotsOf_of_isInternable hc, List.map_singleton]

/-- What interning a constant gives: an index at which it stands in the pool that is left. -/
theorem intern_eq_ok (hc : c.isInternable = true) (h : pool.intern c = .ok (i, grown)) :
    pool.Grows grown ∧ grown.get? i = some c := by
  unfold intern at h
  split at h
  · next hfind =>
    obtain ⟨rfl, rfl⟩ := Prod.mk.inj (Except.ok.inj h)
    exact ⟨.refl _, find?_spec hfind⟩
  · exact ⟨grows_of_push hc h, get?_push h⟩

end ConstantPool

/-! ## Changes -/

namespace PoolChange

open ConstantPool

variable {α β : Type} {pool : ConstantPool} {P : α → ConstantPool → Prop}
  {Q : β → ConstantPool → Prop}

/-! Running changes, whatever it is that changes. -/

theorem run_bind {σ : Type} (change : ExceptT ClassError (StateM σ) α)
    (next : α → ExceptT ClassError (StateM σ) β) (s : σ) :
    (change >>= next) s = match (change s).1 with
      | .ok a => next a (change s).2
      | .error e => (.error e, (change s).2) := by
  show ExceptT.bindCont next (change s).1 (change s).2 = _
  cases (change s).1 <;> rfl

/-- A change that succeeds has a first part that succeeds. -/
theorem run_bind_eq_ok {σ : Type} {change : ExceptT ClassError (StateM σ) α}
    {next : α → ExceptT ClassError (StateM σ) β} {s t : σ} {b : β}
    (h : (change >>= next) s = (.ok b, t)) :
    ∃ a s', change s = (.ok a, s') ∧ next a s' = (.ok b, t) := by
  rw [run_bind] at h
  rcases hrun : change s with ⟨_ | a, s'⟩ <;> rw [hrun] at h
  · cases h
  · exact ⟨a, s', rfl, h⟩

theorem run_pure {σ : Type} (a : α) (s : σ) :
    (pure a : ExceptT ClassError (StateM σ) α) s = (.ok a, s) := rfl

theorem run_get {σ : Type} (s : σ) :
    (get : ExceptT ClassError (StateM σ) σ) s = (.ok s, s) := rfl

theorem run_modify {σ : Type} (f : σ → σ) (s : σ) :
    (modify f : ExceptT ClassError (StateM σ) Unit) s = (.ok (), f s) := rfl

/-- Changes for the items of a list are run in stages: each of them finds what the one before has
left. -/
theorem run_mapM_stages {σ γ : Type} {change : γ → ExceptT ClassError (StateM σ) β} :
    ∀ {items : List γ} {results : List β} {s t : σ}, items.mapM change s = (.ok results, t) →
      results.length = items.length ∧ ∃ stage : Nat → σ,
        stage 0 = s ∧ stage items.length = t ∧
          ∀ k c, items[k]? = some c → ∃ b, results[k]? = some b ∧
            change c (stage k) = (.ok b, stage (k + 1))
  | [], results, s, t, h => by
    obtain ⟨hresults, rfl⟩ := Prod.mk.inj h
    obtain rfl := Except.ok.inj hresults
    exact ⟨rfl, fun _ => s, rfl, rfl, by simp⟩
  | c :: items, results, s, t, h => by
    rw [List.mapM_cons] at h
    obtain ⟨b, middle, hb, h⟩ := run_bind_eq_ok h
    obtain ⟨rest, t', hrest, h⟩ := run_bind_eq_ok h
    obtain ⟨hresults, rfl⟩ := Prod.mk.inj h
    obtain rfl := Except.ok.inj hresults
    obtain ⟨hlen, stage, hfirst, hlast, hruns⟩ := run_mapM_stages hrest
    refine ⟨by simp [hlen], fun k => k.casesOn s stage, rfl, hlast, ?_⟩
    intro k other hother
    cases k with
    | zero =>
      obtain rfl := Option.some.inj hother
      exact ⟨b, rfl, hb.trans (by rw [← hfirst])⟩
    | succ k => exact hruns k other hother

/-- From this pool on, the pool grows, and a result is as stated about the pool that is left. -/
def Ensures (change : PoolChange α) (pool : ConstantPool) (P : α → ConstantPool → Prop) : Prop :=
  pool.Grows (change pool).2 ∧ ∀ a, (change pool).1 = .ok a → P a (change pool).2

theorem Ensures.mono {change : PoolChange α} {P' : α → ConstantPool → Prop}
    (h : change.Ensures pool P) (himp : ∀ a grown, pool.Grows grown → P a grown → P' a grown) :
    change.Ensures pool P' :=
  ⟨h.1, fun a ha => himp a _ h.1 (h.2 a ha)⟩

/-- What is ensured of a change is known of each run of it that succeeds. -/
theorem Ensures.of_run {change : PoolChange α} {grown : ConstantPool} {a : α}
    (h : change.Ensures pool P) (hrun : change pool = (.ok a, grown)) :
    pool.Grows grown ∧ P a grown := by
  rw [Ensures, hrun] at h
  exact ⟨h.1, h.2 a rfl⟩

theorem ensures_pure {a : α} (h : P a pool) : (pure a : PoolChange α).Ensures pool P :=
  ⟨.refl _, fun _ hb => Except.ok.inj hb ▸ h⟩

theorem ensures_ofExcept {result : Except ClassError α} (h : ∀ a, result = .ok a → P a pool) :
    (ofExcept result).Ensures pool P :=
  ⟨.refl _, h⟩

theorem ensures_get {P : ConstantPool → ConstantPool → Prop} (h : P pool pool) :
    (get : PoolChange ConstantPool).Ensures pool P :=
  ⟨.refl _, fun _ hb => Except.ok.inj hb ▸ h⟩

theorem Ensures.bind {change : PoolChange α} {next : α → PoolChange β}
    (h : change.Ensures pool P)
    (hnext : ∀ a grown, pool.Grows grown → P a grown → (next a).Ensures grown Q) :
    (change >>= next).Ensures pool Q := by
  rw [Ensures, run_bind]
  split
  · next a ha =>
    obtain ⟨hgrows, hpost⟩ := hnext a _ h.1 (h.2 a ha)
    exact ⟨h.1.trans hgrows, hpost⟩
  · exact ⟨h.1, fun _ hb => nomatch hb⟩

/-- A change for each item of a list keeps an invariant that each of them keeps, which may tell of
the items that are left. -/
theorem ensures_foldlM {γ : Type} {I : List γ → α → ConstantPool → Prop}
    {step : α → γ → PoolChange α}
    (hstep : ∀ a c items pool, I (c :: items) a pool → (step a c).Ensures pool (I items))
    (items : List γ) (a : α) (pool : ConstantPool) (ha : I items a pool) :
    (items.foldlM step a).Ensures pool (I []) := by
  induction items generalizing a pool with
  | nil => exact ensures_pure ha
  | cons c items ih =>
    rw [List.foldlM_cons]
    exact (hstep a c items pool ha).bind fun b p _ hb => ih b p hb

/-- A change for each item gives results of which everything holds that does of each of them, and
goes on holding while the pool grows. -/
theorem ensures_mapM {γ : Type} {change : γ → PoolChange β} {R : γ → β → ConstantPool → Prop}
    (hgrow : ∀ {c b p q}, p.Grows q → R c b p → R c b q) {items : List γ}
    (hchange : ∀ c ∈ items, ∀ pool, (change c).Ensures pool (R c)) (pool : ConstantPool) :
    (items.mapM change).Ensures pool fun results grown =>
      List.Forall₂ (fun c b => R c b grown) items results := by
  induction items generalizing pool with
  | nil => exact ensures_pure .nil
  | cons c items ih =>
    obtain ⟨hc, hitems⟩ := List.forall_mem_cons.mp hchange
    rw [List.mapM_cons]
    refine (hc pool).bind fun b p _ hb => ?_
    refine (ih hitems p).bind fun results q hq hresults => ensures_pure ?_
    exact .cons (hgrow hq hb) hresults

theorem ensures_intern {c : Constant} (hc : c.isInternable = true) (pool : ConstantPool) :
    (intern c).Ensures pool fun i grown => grown.get? i = some c := by
  rw [Ensures, intern, ofStep]
  split
  · next hi =>
    obtain ⟨hgrows, hget⟩ := intern_eq_ok hc hi
    exact ⟨hgrows, fun _ hb => Except.ok.inj hb ▸ hget⟩
  · exact ⟨.refl _, fun _ hb => nomatch hb⟩

theorem ensures_internText (text : String) (pool : ConstantPool) :
    (internText text).Ensures pool fun i grown => grown.text? i = some text := by
  rw [Ensures, internText, ofStep]
  split
  · next i grown hi =>
    suffices pool.Grows grown ∧ grown.get? i = some (.utf8 text) by
      exact ⟨this.1, fun _ hb => Except.ok.inj hb ▸ text?_eq_some_iff.mpr this.2⟩
    split at hi
    · next hfind =>
      obtain ⟨rfl, rfl⟩ := Prod.mk.inj (Except.ok.inj hi)
      exact ⟨.refl _, find?_spec hfind⟩
    · dsimp only at hi
      split at hi
      · cases hi
      · exact ⟨grows_of_push rfl hi, get?_push hi⟩
  · exact ⟨.refl _, fun _ hb => nomatch hb⟩

theorem ensures_internString (text : PoolIndex) (pool : ConstantPool) :
    (internString text).Ensures pool fun i grown => grown.get? i = some (.string text) :=
  ensures_intern rfl pool

theorem ensures_internClass (name : String) (pool : ConstantPool) :
    (internClass name).Ensures pool fun i grown => grown.className i = .ok name := by
  refine (ensures_internText name pool).bind fun text p _ htext => ?_
  refine (ensures_intern rfl p).mono fun i q hq hi => ?_
  rw [className, hi]
  exact hq.text (text_eq_ok_iff.mpr (text?_eq_some_iff.mp htext))

end PoolChange

end ClassText
