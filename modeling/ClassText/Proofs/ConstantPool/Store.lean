import ClassText.Proofs.ConstantPool.Codec

/-!
# A pool as a store

A pool is changed by four calls: a constant is pushed, or a text, a string or a
class is interned. Whatever calls are made of a pool that was empty or read, and
whichever of them fail, its constants stand one behind the other from index 1 on,
and an index keeps what was found at it.

The pool is searched for its first constant with the given contents. A push
changes what the search finds in one way only (`find?_push`): a constant that was
not found before is found where it was pushed. So the same answers can be had
from a table in which the place of a constant is noted when it is pushed, unless
it has one already. All that interning promises follows from this: the place of
a constant is the lowest there is, it stays the lowest whatever is pushed later
(`IsFirst.extends`), and so interning finds it again.
-/

namespace ClassText

/-- The ways in which a pool is changed. -/
inductive PoolCall where
  | push (c : Constant)
  | internText (text : String)
  | internString (text : PoolIndex)
  | internClass (name : String)
deriving DecidableEq, Repr

namespace PoolCall

def run : PoolCall → PoolChange PoolIndex
  | push c => PoolChange.ofStep (·.push c)
  | internText text => PoolChange.internText text
  | internString text => PoolChange.internString text
  | internClass name => PoolChange.internClass name

def isIntern : PoolCall → Bool
  | push _ => false
  | _ => true

/-- The pool that is left by calls, each of which may fail. -/
def runAll (calls : List PoolCall) (pool : ConstantPool) : ConstantPool :=
  calls.foldl (fun pool call => (call.run pool).2) pool

end PoolCall

namespace ConstantPool

variable {pool grown : ConstantPool} {c : Constant} {i : PoolIndex}

/-- A pool that was empty or read, after any calls. -/
inductive IsReached : ConstantPool → Prop
  | empty : IsReached empty
  | read {bytes rest : Bytes} {pool : ConstantPool} (h : read.run bytes = .ok (pool, rest)) :
      IsReached pool
  | called {pool : ConstantPool} (h : IsReached pool) (call : PoolCall) :
      IsReached (call.run pool).2

/-! ## More constants behind -/

/-- The second pool is the first one with any constants behind it. -/
def Extends (pool grown : ConstantPool) : Prop :=
  ∃ added : List Constant, grown.slots.toList = pool.slots.toList ++ added.flatMap slotsOf

theorem Extends.refl (pool : ConstantPool) : pool.Extends pool :=
  ⟨[], by simp⟩

theorem Extends.trans {p q r : ConstantPool} (h : p.Extends q) (h' : q.Extends r) :
    p.Extends r := by
  obtain ⟨first, hq⟩ := h
  obtain ⟨second, hr⟩ := h'
  exact ⟨first ++ second, by rw [hr, hq, List.flatMap_append, List.append_assoc]⟩

theorem Grows.extends (h : pool.Grows grown) : pool.Extends grown := by
  obtain ⟨added, hadded, hslots⟩ := h
  refine ⟨added, ?_⟩
  rw [hslots, List.map_eq_flatMap]
  congr 1
  exact List.flatMap_congr fun c hc => (slotsOf_of_isInternable (hadded c hc)).symm

theorem push_of_slots (hroom : pool.count + c.width ≤ 65535) (hi : i.toNat = pool.count)
    (hslots : grown.slots.toList = pool.slots.toList ++ slotsOf c) :
    pool.push c = .ok (i, grown) := by
  have hroom' : pool.hasRoom c = true := decide_eq_true hroom
  have hadd : pool.add c = grown := eq_of_slots (by
    rw [add, dif_pos hroom', Array.toList_appendList, hslots])
  rw [push, if_pos hroom', hadd, ← hi, UInt16.ofNat_toNat]

theorem extends_of_push (h : pool.push c = .ok (i, grown)) : pool.Extends grown :=
  ⟨[c], by simp [(push_eq_ok h).2]⟩

theorem Extends.get? (h : pool.Extends grown) (hi : i.toNat < pool.count) :
    grown.get? i = pool.get? i := by
  obtain ⟨added, hslots⟩ := h
  rw [count_eq_length] at hi
  rw [ConstantPool.get?, ConstantPool.get?, ← Array.getElem?_toList, ← Array.getElem?_toList,
    hslots, List.getElem?_append_left hi]

theorem lt_count_of_get? (h : pool.get? i = some c) : i.toNat < pool.count := by
  rw [get?_eq_some_iff] at h
  rw [count_eq_length]
  exact (List.getElem?_eq_some_iff.mp h).1

theorem Extends.isRowOf {constants : List Constant} (h : pool.Extends grown)
    (hrow : pool.IsRowOf constants) : ∃ more, grown.IsRowOf (constants ++ more) := by
  obtain ⟨added, hslots⟩ := h
  refine ⟨added, ?_⟩
  rw [IsRowOf, hslots, hrow, List.flatMap_append, List.cons_append]

/-! ## What the search finds -/

/-- The constant stands at the index, and at no lower one. -/
def IsFirst (pool : ConstantPool) (c : Constant) (i : PoolIndex) : Prop :=
  pool.get? i = some c ∧ ∀ j < i, pool.get? j ≠ some c

/-- There is no room for another constant, and the text is not among those that are there. -/
structure LacksRoomFor (pool : ConstantPool) (text : String) : Prop where
  full : pool.count = 65535
  absent : ∀ i, pool.text? i ≠ some text

theorem IsFirst.extends (h : pool.IsFirst c i) (hextends : pool.Extends grown) :
    grown.IsFirst c i := by
  have hlt := lt_count_of_get? h.1
  refine ⟨by rw [hextends.get? hlt, h.1], ?_⟩
  intro j hj
  have hji : j.toNat < i.toNat := UInt16.lt_iff_toNat_lt.mp hj
  rw [hextends.get? (by omega)]
  exact h.2 j hj

theorem find?_eq_some_iff : pool.find? c = some i ↔ pool.IsFirst c i := by
  have hle := pool.size_le
  constructor
  · intro h
    refine ⟨find?_spec h, ?_⟩
    rw [find?, Option.map_eq_some_iff] at h
    obtain ⟨k, hk, rfl⟩ := h
    obtain ⟨hlt, -, hbefore⟩ := Array.findIdx?_eq_some_iff_getElem.mp hk
    have hidx : (UInt16.ofNat k).toNat = k :=
      UInt16.toNat_ofNat_of_lt (by rw [UInt16.size]; omega)
    intro j hj hc
    rw [UInt16.lt_iff_toNat_lt, hidx] at hj
    rw [get?_eq_some_iff, Array.getElem?_toList] at hc
    obtain ⟨hjlt, hget⟩ := Array.getElem?_eq_some_iff.mp hc
    exact hbefore j.toNat hj (by rw [hget, beq_self_eq_true])
  · rintro ⟨hc, hbefore⟩
    rw [get?_eq_some_iff, Array.getElem?_toList] at hc
    obtain ⟨hlt, hget⟩ := Array.getElem?_eq_some_iff.mp hc
    have hfind : pool.slots.findIdx? (· == some c) = some i.toNat := by
      refine Array.findIdx?_eq_some_iff_getElem.mpr ⟨hlt, by rw [hget, beq_self_eq_true], ?_⟩
      intro j hj hslot
      have hidx : (UInt16.ofNat j).toNat = j :=
        UInt16.toNat_ofNat_of_lt (by rw [UInt16.size]; omega)
      refine hbefore (.ofNat j) (UInt16.lt_iff_toNat_lt.mpr (by rwa [hidx])) ?_
      rw [get?_eq_some_iff, Array.getElem?_toList, hidx, Array.getElem?_eq_getElem (by omega),
        eq_of_beq hslot]
    rw [find?, hfind, Option.map_some, UInt16.ofNat_toNat]

theorem find?_eq_none_iff : pool.find? c = none ↔ ∀ i, pool.get? i ≠ some c := by
  have hle := pool.size_le
  rw [find?, Option.map_eq_none_iff, Array.findIdx?_eq_none_iff]
  constructor
  · intro hnone i hi
    rw [get?_eq_some_iff, Array.getElem?_toList] at hi
    have hdiffers := hnone _ (Array.mem_of_getElem? hi)
    rw [beq_self_eq_true] at hdiffers
    cases hdiffers
  · intro hnone slot hslot
    rw [beq_eq_false_iff_ne]
    rintro rfl
    obtain ⟨k, hk, hget⟩ := Array.getElem_of_mem hslot
    have hidx : (UInt16.ofNat k).toNat = k :=
      UInt16.toNat_ofNat_of_lt (by rw [UInt16.size]; omega)
    refine hnone (.ofNat k) ?_
    rw [get?_eq_some_iff, Array.getElem?_toList, hidx, Array.getElem?_eq_getElem hk, hget]

theorem find?_eq_findIdx? (pool : ConstantPool) (c : Constant) :
    pool.find? c = (pool.slots.toList.findIdx? (· == some c)).map .ofNat := by
  rw [find?, ← List.findIdx?_toArray, Array.toArray_toList]

/-- A push is noted unless the constant has its place already; all other places stay. -/
theorem find?_push (h : pool.push c = .ok (i, grown)) (k : Constant) :
    grown.find? k = (pool.find? k).or (if k = c then some i else none) := by
  obtain ⟨hi, hslots⟩ := push_eq_ok h
  have hpushed : (slotsOf c).findIdx? (· == some k) = if k = c then some 0 else none := by
    by_cases hk : k = c
    · subst hk
      simp [slotsOf, List.findIdx?_cons]
    · simp [slotsOf, List.findIdx?_cons, hk, Ne.symm hk]
  rw [find?_eq_findIdx?, find?_eq_findIdx?, hslots, List.findIdx?_append, hpushed, ← count_eq_length, ← hi]
  cases pool.slots.toList.findIdx? (· == some k) with
  | some j => rfl
  | none =>
    by_cases hk : k = c
    · simp [hk]
    · simp [hk]

theorem isFirst_of_intern (h : pool.intern c = .ok (i, grown)) :
    pool.Extends grown ∧ grown.IsFirst c i := by
  unfold intern at h
  split at h
  · next hfind =>
    obtain ⟨rfl, rfl⟩ := Prod.mk.inj (Except.ok.inj h)
    exact ⟨.refl _, find?_eq_some_iff.mp hfind⟩
  · next hfind =>
    refine ⟨extends_of_push h, find?_eq_some_iff.mp ?_⟩
    rw [find?_push h, hfind, if_pos rfl, Option.none_or]

theorem intern_of_isFirst (h : pool.IsFirst c i) : pool.intern c = .ok (i, pool) := by
  rw [intern, find?_eq_some_iff.mpr h]

/-! ## Constants one behind the other -/

/-- Every entry stands where the one before it ends, from the first index to the last. -/
def Consecutive : Nat → List (Nat × Constant) → Nat → Prop
  | start, [], stop => start = stop
  | start, (i, c) :: rest, stop => i = start ∧ Consecutive (start + c.width) rest stop

theorem Consecutive.ascending {start stop : Nat} {entries : List (Nat × Constant)}
    (h : Consecutive start entries stop) :
    (∀ e ∈ entries, start ≤ e.1) ∧ entries.Pairwise fun e later => e.1 < later.1 := by
  induction entries generalizing start with
  | nil => simp
  | cons entry rest ih =>
    obtain ⟨i, c⟩ := entry
    obtain ⟨rfl, hrest⟩ := h
    obtain ⟨hle, hpairwise⟩ := ih hrest
    have hpos := c.width_pos
    refine ⟨?_, List.pairwise_cons.mpr ⟨?_, hpairwise⟩⟩
    · intro e he
      rcases List.mem_cons.mp he with rfl | he
      · exact Nat.le_refl _
      · have := hle e he
        omega
    · intro e he
      have := hle e he
      show i < e.1
      omega

/-- The constants that stand in slots, each with its index. -/
def placed (slots : List (Option Constant)) (start : Nat) : List (Nat × Constant) :=
  (slots.zipIdx start).filterMap fun (slot, i) => slot.map (i, ·)

theorem placed_append (first second : List (Option Constant)) (start : Nat) :
    placed (first ++ second) start =
      placed first start ++ placed second (start + first.length) := by
  rw [placed, List.zipIdx_append, List.filterMap_append]
  rfl

theorem placed_slotsOf (c : Constant) (start : Nat) : placed (slotsOf c) start = [(start, c)] := by
  cases c <;> rfl

theorem consecutive_placed (constants : List Constant) (start : Nat) :
    Consecutive start (placed (constants.flatMap slotsOf) start)
      (start + (constants.flatMap slotsOf).length) := by
  induction constants generalizing start with
  | nil => rfl
  | cons c constants ih =>
    have hrest := ih (start + c.width)
    rw [List.flatMap_cons, placed_append, placed_slotsOf, List.length_append, length_slotsOf,
      ← Nat.add_assoc]
    exact ⟨rfl, hrest⟩

theorem IsRowOf.consecutive {constants : List Constant} (h : pool.IsRowOf constants) :
    Consecutive 1 pool.entries pool.count := by
  have hentries : pool.entries = placed (constants.flatMap slotsOf) 1 := by
    show placed pool.slots.toList 0 = _
    rw [h]
    rfl
  have hcount : pool.count = 1 + (constants.flatMap slotsOf).length := by
    rw [count_eq_length, h, List.length_cons, Nat.add_comm]
  rw [hentries, hcount]
  exact consecutive_placed constants 1

theorem mem_entries_iff {n : Nat} :
    (n, c) ∈ pool.entries ↔ pool.slots.toList[n]? = some (some c) := by
  rw [entries, List.mem_filterMap]
  constructor
  · rintro ⟨⟨slot, k⟩, hmem, hslot⟩
    obtain ⟨d, rfl, heq⟩ := Option.map_eq_some_iff.mp hslot
    obtain ⟨rfl, rfl⟩ := Prod.mk.inj heq
    exact List.mem_zipIdx_iff_getElem?.mp hmem
  · intro h
    exact ⟨(some c, n), List.mem_zipIdx_iff_getElem?.mpr h, rfl⟩

/-- Behind a constant of width two stands an empty slot. -/
theorem second_of_row :
    ∀ {constants : List Constant} {n : Nat} {c : Constant},
      (constants.flatMap slotsOf)[n]? = some (some c) → c.width = 2 →
        (constants.flatMap slotsOf)[n + 1]? = some none
  | d :: constants, n, c, h, hwide => by
    rw [List.flatMap_cons] at h ⊢
    rcases Nat.lt_or_ge n (slotsOf d).length with hlt | hge
    · rw [List.getElem?_append_left hlt] at h
      have hfirst : n = 0 ∧ d = c := by
        cases n with
        | zero => exact ⟨rfl, Option.some.inj (Option.some.inj h)⟩
        | succ n =>
          rw [slotsOf, List.getElem?_cons_succ] at h
          cases (List.mem_replicate.mp (List.mem_of_getElem? h)).2
      obtain ⟨rfl, rfl⟩ := hfirst
      rw [List.getElem?_append_left (by rw [length_slotsOf, hwide]; omega), slotsOf, hwide]
      rfl
    · rw [List.getElem?_append_right hge] at h
      rw [List.getElem?_append_right (Nat.le_succ_of_le hge), Nat.succ_sub hge]
      exact second_of_row h hwide

end ConstantPool

/-! ## Calls -/

namespace PoolCall

open ConstantPool

variable {pool grown : ConstantPool} {i : PoolIndex}

/-- What a call promises of the index that it gives, in the pool that is left. -/
def Gives : PoolCall → PoolIndex → ConstantPool → Prop
  | push c, i, pool => pool.get? i = some c ∧ i.toNat + c.width = pool.count
  | internText text, i, pool => pool.IsFirst (.utf8 text) i
  | internString text, i, pool => pool.IsFirst (.string text) i
  | internClass name, i, pool =>
    ∃ text, pool.IsFirst (.utf8 name) text ∧ pool.IsFirst (.classRef text) i

theorem run_ofStep_eq_ok {α : Type} {step : ConstantPool → Except ClassError (α × ConstantPool)}
    {a : α} : PoolChange.ofStep step pool = (.ok a, grown) ↔ step pool = .ok (a, grown) := by
  unfold PoolChange.ofStep
  rcases step pool with e | ⟨b, q⟩
  · constructor <;> intro h
    · cases Prod.mk.inj h |>.1
    · cases h
  · constructor
    · intro h
      obtain ⟨hb, rfl⟩ := Prod.mk.inj h
      rw [Except.ok.inj hb]
    · intro h
      obtain ⟨rfl, rfl⟩ := Prod.mk.inj (Except.ok.inj h)
      rfl

theorem run_ofStep_eq_error {α : Type}
    {step : ConstantPool → Except ClassError (α × ConstantPool)} {e : ClassError} :
    PoolChange.ofStep step pool = (.error e, grown) ↔ step pool = .error e ∧ grown = pool := by
  unfold PoolChange.ofStep
  rcases step pool with e' | ⟨b, q⟩
  · rw [Prod.mk.injEq, Except.error.injEq, Except.error.injEq, eq_comm (a := pool)]
  · constructor <;> intro h
    · cases Prod.mk.inj h |>.1
    · cases h.1

theorem extends_run (call : PoolCall) (pool : ConstantPool) : pool.Extends (call.run pool).2 := by
  cases call with
  | push c =>
    show pool.Extends (PoolChange.ofStep (·.push c) pool).2
    unfold PoolChange.ofStep
    split
    · next hpush => exact extends_of_push hpush
    · exact .refl _
  | internText text => exact (PoolChange.ensures_internText text pool).1.extends
  | internString text => exact (PoolChange.ensures_internString text pool).1.extends
  | internClass name => exact (PoolChange.ensures_internClass name pool).1.extends

theorem extends_runAll (calls : List PoolCall) (pool : ConstantPool) :
    pool.Extends (runAll calls pool) := by
  induction calls generalizing pool with
  | nil => exact .refl _
  | cons call calls ih => exact (call.extends_run pool).trans (ih _)

theorem isFirst_of_internText {text : String}
    (h : PoolChange.internText text pool = (.ok i, grown)) : grown.IsFirst (.utf8 text) i := by
  have h := run_ofStep_eq_ok.mp h
  have hintern : pool.intern (.utf8 text) = .ok (i, grown) := by
    unfold intern
    cases hfind : pool.find? (.utf8 text) with
    | some j => rwa [hfind] at h
    | none =>
      rw [hfind] at h
      dsimp only at h
      split at h
      · cases h
      · exact h
  exact (isFirst_of_intern hintern).2

theorem internText_of_isFirst {text : String} (h : pool.IsFirst (.utf8 text) i) :
    PoolChange.internText text pool = (.ok i, pool) := by
  refine run_ofStep_eq_ok.mpr ?_
  rw [find?_eq_some_iff.mpr h]

/-- A text that is not too long is refused if it is not there and there is no room for it. -/
theorem internText_eq_error_iff {text : String} {e : ClassError}
    (hshort : ModifiedUtf8.encodedLength text ≤ 65535) :
    PoolChange.internText text pool = (.error e, grown) ↔
      pool.LacksRoomFor text ∧ e = .poolOverflow (.utf8 text) 65535 ∧ grown = pool := by
  have hle : pool.count ≤ 65535 := pool.size_le
  have habsent : pool.find? (.utf8 text) = none ↔ ∀ i, pool.text? i ≠ some text :=
    find?_eq_none_iff.trans (forall_congr' fun _ => not_congr text?_eq_some_iff.symm)
  have hfull : pool.hasRoom (.utf8 text) = false ↔ pool.count = 65535 := by
    have hwidth : (Constant.utf8 text).width = 1 := rfl
    rw [hasRoom, decide_eq_false_iff_not, hwidth]
    omega
  rw [PoolChange.internText, run_ofStep_eq_error]
  cases hfind : pool.find? (.utf8 text) with
  | some i =>
    constructor
    · rintro ⟨h, -⟩
      cases h
    · rintro ⟨hlacks, -⟩
      rw [habsent.mpr hlacks.absent] at hfind
      cases hfind
  | none =>
    dsimp only
    rw [if_neg (Nat.not_lt.mpr hshort), ConstantPool.push]
    cases hroom : pool.hasRoom (.utf8 text) with
    | true =>
      rw [if_pos rfl]
      constructor
      · rintro ⟨h, -⟩
        cases h
      · rintro ⟨hlacks, -⟩
        rw [hfull.mpr hlacks.full] at hroom
        cases hroom
    | false =>
      have hcount := hfull.mp hroom
      rw [if_neg Bool.false_ne_true, hcount]
      constructor
      · rintro ⟨he, hgrown⟩
        exact ⟨⟨hcount, habsent.mp hfind⟩, (Except.error.inj he).symm, hgrown⟩
      · rintro ⟨-, rfl, hgrown⟩
        exact ⟨rfl, hgrown⟩

theorem isFirst_of_run_intern {c : Constant} (h : PoolChange.intern c pool = (.ok i, grown)) :
    pool.Extends grown ∧ grown.IsFirst c i :=
  isFirst_of_intern (run_ofStep_eq_ok.mp h)

theorem run_intern_of_isFirst {c : Constant} (h : pool.IsFirst c i) :
    PoolChange.intern c pool = (.ok i, pool) :=
  run_ofStep_eq_ok.mpr (intern_of_isFirst h)

theorem gives_of_run {call : PoolCall} (h : call.run pool = (.ok i, grown)) :
    call.Gives i grown := by
  cases call with
  | push c =>
    change PoolChange.ofStep (·.push c) pool = (.ok i, grown) at h
    have hpush := run_ofStep_eq_ok.mp h
    obtain ⟨hi, hslots⟩ := push_eq_ok hpush
    refine ⟨get?_push hpush, ?_⟩
    rw [count_eq_length grown, hslots, List.length_append, length_slotsOf, ← count_eq_length, hi]
  | internText text => exact isFirst_of_internText h
  | internString text => exact (isFirst_of_run_intern h).2
  | internClass name =>
    obtain ⟨text, middle, htext, hclass⟩ := PoolChange.run_bind_eq_ok h
    obtain ⟨hextends, hfirst⟩ := isFirst_of_run_intern hclass
    exact ⟨text, (isFirst_of_internText htext).extends hextends, hfirst⟩

theorem Gives.extends {call : PoolCall} (hintern : call.isIntern = true)
    (h : call.Gives i pool) (hextends : pool.Extends grown) : call.Gives i grown := by
  cases call with
  | push c => cases hintern
  | internText text => exact IsFirst.extends h hextends
  | internString text => exact IsFirst.extends h hextends
  | internClass name =>
    obtain ⟨text, htext, hclass⟩ := h
    exact ⟨text, htext.extends hextends, hclass.extends hextends⟩

theorem run_of_gives {call : PoolCall} (hintern : call.isIntern = true)
    (h : call.Gives i pool) : call.run pool = (.ok i, pool) := by
  cases call with
  | push c => cases hintern
  | internText text => exact internText_of_isFirst h
  | internString text => exact run_intern_of_isFirst h
  | internClass name =>
    obtain ⟨text, htext, hclass⟩ := h
    show (PoolChange.internText name >>= fun text => PoolChange.intern (.classRef text)) pool = _
    rw [PoolChange.run_bind, internText_of_isFirst htext]
    exact run_intern_of_isFirst hclass

end PoolCall

/-! ## The store -/

namespace ConstantPool

variable {pool grown : ConstantPool} {c : Constant} {i : PoolIndex}

/-- What is found in a pool, and where. -/
structure IsStore (pool : ConstantPool) : Prop where
  consecutive : Consecutive 1 pool.entries pool.count
  ascending : pool.entries.Pairwise fun e later => e.1 < later.1
  get?_iff : ∀ (i : PoolIndex) (c : Constant), pool.get? i = some c ↔ (i.toNat, c) ∈ pool.entries
  get?_zero : pool.get? 0 = none
  get?_second : ∀ (i : PoolIndex) (c : Constant), pool.get? i = some c → c.width = 2 →
    pool.get? (i + 1) = none
  get?_beyond : ∀ i : PoolIndex, pool.count ≤ i.toNat → pool.get? i = none
  count_le : pool.count ≤ 65535

theorem IsReached.runAll (h : pool.IsReached) (calls : List PoolCall) :
    (PoolCall.runAll calls pool).IsReached := by
  induction calls generalizing pool with
  | nil => exact h
  | cons call calls ih => exact ih (h.called call)

theorem IsReached.exists_row (h : pool.IsReached) : ∃ constants, pool.IsRowOf constants := by
  induction h with
  | empty => exact ⟨[], rfl⟩
  | read hrun =>
    obtain ⟨used, -, htakes⟩ := ByteReader.run_eq_ok_iff.mp hrun
    obtain ⟨⟨constants, hrow, -⟩, -⟩ := write_of_takes htakes
    exact ⟨constants, hrow⟩
  | called _ call ih =>
    obtain ⟨constants, hrow⟩ := ih
    obtain ⟨more, hmore⟩ := (call.extends_run _).isRowOf hrow
    exact ⟨_, hmore⟩

theorem isStore_of_isRowOf {constants : List Constant} (h : pool.IsRowOf constants) :
    pool.IsStore where
  consecutive := h.consecutive
  ascending := h.consecutive.ascending.2
  get?_iff i c := by rw [get?_eq_some_iff, mem_entries_iff]
  get?_zero := by
    rw [get?, ← Array.getElem?_toList, h]
    rfl
  get?_second i c hc hwide := by
    have hlt := lt_count_of_get? hc
    have hle := pool.size_le
    have hnext : (i + 1).toNat = i.toNat + 1 := by
      rw [UInt16.toNat_add, UInt16.toNat_one]
      rw [count] at hlt
      omega
    rw [get?_eq_some_iff, h] at hc
    rw [get?, ← Array.getElem?_toList, h, hnext]
    cases hi : i.toNat with
    | zero => simp [hi] at hc
    | succ n =>
      rw [hi, List.getElem?_cons_succ] at hc
      rw [List.getElem?_cons_succ, second_of_row hc hwide]
      rfl
  get?_beyond i hi := by
    rw [get?, Array.getElem?_eq_none hi]
    rfl
  count_le := pool.size_le

/-- The laws of a pool that was empty or read, after any calls. Its constants stand one behind
the other, and are found at their own indices and nowhere else. What was found at an index is
found there after all later calls. An index that interning gives is the lowest one for its
contents, and interning the same again gives it again, at once or after any other calls, and
changes nothing. A push is noted as the place of its constant unless that has one already. -/
theorem IsReached.isStore (h : pool.IsReached) :
    pool.IsStore ∧
    (∀ (calls : List PoolCall) (i : PoolIndex) (c : Constant), pool.get? i = some c →
      (PoolCall.runAll calls pool).get? i = some c) ∧
    (∀ (call : PoolCall) (i : PoolIndex) (grown : ConstantPool),
      call.run pool = (.ok i, grown) → call.Gives i grown ∧
        (call.isIntern = true → ∀ later, call.run (PoolCall.runAll later grown) =
          (.ok i, PoolCall.runAll later grown))) ∧
    ∀ (c : Constant) (i : PoolIndex) (grown : ConstantPool), pool.push c = .ok (i, grown) →
      ∀ k, grown.find? k = (pool.find? k).or (if k = c then some i else none) := by
  obtain ⟨constants, hrow⟩ := h.exists_row
  refine ⟨isStore_of_isRowOf hrow, ?_, ?_, ?_⟩
  · intro calls i c hc
    rw [(PoolCall.extends_runAll calls pool).get? (lt_count_of_get? hc), hc]
  · intro call i grown hrun
    have hgives := PoolCall.gives_of_run hrun
    refine ⟨hgives, fun hintern later => ?_⟩
    exact PoolCall.run_of_gives hintern
      (hgives.extends hintern (PoolCall.extends_runAll later grown))
  · intro c i grown hpush k
    exact find?_push hpush k

/-- A wide constant, then a class, and then the name of the class once more. -/
def renamed : ConstantPool :=
  PoolCall.runAll [.push (.long 7), .internClass "a", .push (.utf8 "a")] empty

/-- The name that was pushed again is not the one that interning finds. -/
theorem IsReached.isStore_renamed :
    renamed.IsReached ∧ renamed.IsStore ∧ renamed.get? 5 = some (.utf8 "a") ∧
    ∀ later, (PoolCall.internText "a").run (PoolCall.runAll later renamed) =
      (.ok 3, PoolCall.runAll later renamed) := by
  have hreached : renamed.IsReached := IsReached.empty.runAll _
  have hfirst : renamed.IsFirst (.utf8 "a") 3 := find?_eq_some_iff.mp (by decide +kernel)
  have hgives : (PoolCall.internText "a").Gives 3 renamed := hfirst
  have hrun : (PoolCall.internText "a").run renamed = (.ok 3, renamed) :=
    PoolCall.run_of_gives rfl hgives
  obtain ⟨hstore, -, hcalls, -⟩ := hreached.isStore
  exact ⟨hreached, hstore, by decide +kernel, (hcalls _ _ _ hrun).2 rfl⟩

end ConstantPool

end ClassText
