import ClassText.ConstantPool.Codec
import ClassText.Proofs.Constant.Codec
import ClassText.Proofs.ConstantPool.Growth

/-!
# Pools are read as they are written

A pool that was read is a row of constants: after the empty slot 0 stand the
slots of one constant after the other. Writing goes through these constants, and
reading puts the same row together again, for the count that is written is the
number of its slots. Growing only lengthens the row.
-/

namespace ClassText.ConstantPool

open ByteReader

variable {pool grown : ConstantPool} {used bytes : Bytes} {constants : List Constant}

/-- The pool is made of these constants, in this order. -/
def IsRowOf (pool : ConstantPool) (constants : List Constant) : Prop :=
  pool.slots.toList = none :: constants.flatMap slotsOf

/-- The pool is a row of constants that are read as they are. -/
def IsReadable (pool : ConstantPool) : Prop :=
  ∃ constants, pool.IsRowOf constants ∧ ∀ c ∈ constants, c.IsNormal

theorem eq_of_slots {p q : ConstantPool} (h : p.slots.toList = q.slots.toList) : p = q := by
  obtain ⟨ps, _⟩ := p
  obtain ⟨qs, _⟩ := q
  obtain rfl := Array.toList_inj.mp h
  rfl

theorem count_eq_length (pool : ConstantPool) : pool.count = pool.slots.toList.length := by
  rw [count, Array.length_toList]

/-! ## The constants of a row -/

theorem filterMap_slotsOf (c : Constant) : (slotsOf c).filterMap id = [c] := by
  cases c <;> rfl

theorem IsRowOf.constants_eq (h : pool.IsRowOf constants) :
    pool.entries.map (·.2) = constants := by
  have hslots : pool.entries.map (·.2) = pool.slots.toList.filterMap id := by
    have hzip : (pool.slots.toList.zipIdx.map (·.1)).filterMap id =
        pool.slots.toList.filterMap id := by
      rw [List.zipIdx_map_fst]
    rw [← hzip, entries, List.map_filterMap, List.filterMap_map]
    refine List.filterMap_congr fun entry _ => ?_
    rcases entry with ⟨_ | c, i⟩ <;> rfl
  have hrow : (constants.flatMap slotsOf).filterMap id = constants.flatMap fun c => [c] := by
    rw [List.filterMap_flatMap]
    exact List.flatMap_congr fun c _ => filterMap_slotsOf c
  rw [hslots, h, List.filterMap_cons_none rfl, hrow, List.flatMap_singleton' ]

theorem IsRowOf.write_eq_ok_iff (h : pool.IsRowOf constants) :
    pool.write = .ok bytes ↔
      ∃ parts, List.Forall₂ (fun c part => c.write = .ok part) constants parts ∧
        bytes = Bytes.word16 (.ofNat pool.count) ++ parts.flatten := by
  rw [write, Success.bind_eq_ok]
  constructor
  · rintro ⟨body, hbody, heq⟩
    obtain ⟨parts, hparts, rfl⟩ := Written.concat_eq_ok_iff.mp hbody
    refine ⟨parts, ?_, (Except.ok.inj heq).symm⟩
    rw [← h.constants_eq]
    exact List.forall₂_map_left_iff.mpr hparts
  · rintro ⟨parts, hparts, rfl⟩
    refine ⟨_, Written.concat_eq_ok_iff.mpr ⟨parts, ?_, rfl⟩, rfl⟩
    rw [← h.constants_eq] at hparts
    exact List.forall₂_map_left_iff.mp hparts

theorem Grows.isReadable (hgrows : pool.Grows grown) (h : pool.IsReadable) :
    grown.IsReadable := by
  obtain ⟨added, hadded, hslots⟩ := hgrows
  obtain ⟨constants, hrow, hnormal⟩ := h
  have hflat : added.flatMap slotsOf = added.map some := by
    rw [List.map_eq_flatMap]
    exact List.flatMap_congr fun c hc => slotsOf_of_isInternable (hadded c hc)
  refine ⟨constants ++ added, ?_, ?_⟩
  · rw [IsRowOf, hslots, hrow, List.flatMap_append, hflat, List.cons_append]
  · intro c hc
    rcases List.mem_append.mp hc with hc | hc
    · exact hnormal c hc
    · have := hadded c hc
      cases c <;> trivial

/-! ## Reading constants up to a count -/

/-- Constants that were read stand behind those that were there, up to the count. -/
theorem readLoop_parts {count : Nat} :
    ∀ {fuel : Nat} {pool result : ConstantPool} {used : Bytes},
      (readLoop count fuel pool).Takes used result →
        ∃ parts constants, List.Forall₂ Constant.read.Takes parts constants ∧
          used = parts.flatten ∧
          result.slots.toList = pool.slots.toList ++ constants.flatMap slotsOf ∧
          (pool.count ≤ count → count ≤ pool.count + fuel → result.count = count)
  | 0, pool, result, used, h => by
    obtain ⟨rfl, rfl⟩ := takes_pure.mp h
    exact ⟨[], [], .nil, rfl, (List.append_nil _).symm, fun hle hfuel => by omega⟩
  | fuel + 1, pool, result, used, h => by
    rw [readLoop] at h
    split at h
    · obtain ⟨first, _, c, rfl, hc, h₁⟩ := takes_bind.mp h
      obtain ⟨hroom, h₂⟩ := takes_check.mp h₁
      obtain ⟨_, _, ⟨i, next⟩, rfl, htaken, h₃⟩ := takes_bind.mp h₂
      obtain ⟨rfl, hpush⟩ := takes_ofExcept.mp htaken
      obtain ⟨parts, constants, hparts, rfl, hslots, hcount⟩ := readLoop_parts h₃
      have hnext : next.count = pool.count + c.width := by
        rw [count_eq_length, (push_eq_ok hpush).2, List.length_append, length_slotsOf,
          ← count_eq_length]
      have hpos := c.width_pos
      refine ⟨first :: parts, c :: constants, .cons hc hparts, rfl, ?_, fun _ _ => ?_⟩
      · rw [hslots, (push_eq_ok hpush).2, List.flatMap_cons, List.append_assoc]
      · exact hcount (by omega) (by omega)
    · obtain ⟨rfl, rfl⟩ := takes_pure.mp h
      exact ⟨[], [], .nil, rfl, (List.append_nil _).symm, fun hle _ => by omega⟩

theorem push_of_room {c : Constant} (h : pool.count + c.width ≤ 65535) :
    pool.push c = .ok (.ofNat pool.count, pool.add c) := by
  rw [push, if_pos (show pool.hasRoom c = true from decide_eq_true h)]

theorem slots_add {c : Constant} (h : pool.count + c.width ≤ 65535) :
    (pool.add c).slots.toList = pool.slots.toList ++ slotsOf c :=
  (push_eq_ok (push_of_room h)).2

/-- Constants are read one after the other until the count is reached. -/
theorem takes_readLoop {result : ConstantPool} :
    ∀ {constants : List Constant} {parts : List Bytes} {pool : ConstantPool} {fuel : Nat},
      List.Forall₂ Constant.read.Takes parts constants →
      result.slots.toList = pool.slots.toList ++ constants.flatMap slotsOf →
      result.count ≤ pool.count + fuel →
      (readLoop result.count fuel pool).Takes parts.flatten result
  | [], _, pool, fuel, hparts, hslots, _ => by
    cases hparts
    obtain rfl : result = pool := eq_of_slots (by simpa using hslots)
    cases fuel with
    | zero => exact takes_pure.mpr ⟨rfl, rfl⟩
    | succ fuel =>
      rw [readLoop, if_neg (Nat.lt_irrefl _)]
      exact takes_pure.mpr ⟨rfl, rfl⟩
  | c :: constants, _, pool, fuel, hparts, hslots, hfuel => by
    cases hparts with
    | @cons part _ parts _ hc hrest =>
    have hlen : pool.count + c.width ≤ result.count := by
      rw [count_eq_length result, hslots, List.flatMap_cons, List.length_append,
        List.length_append, length_slotsOf, ← count_eq_length]
      omega
    have hroom : pool.count + c.width ≤ 65535 := Nat.le_trans hlen result.size_le
    have hpos := c.width_pos
    have hslots' : result.slots.toList =
        (pool.add c).slots.toList ++ constants.flatMap slotsOf := by
      rw [hslots, slots_add hroom, List.flatMap_cons, List.append_assoc]
    have hadd : (pool.add c).count = pool.count + c.width := by
      rw [count_eq_length, slots_add hroom, List.length_append, length_slotsOf,
        ← count_eq_length]
    cases fuel with
    | zero => omega
    | succ fuel =>
      rw [readLoop, if_pos (by omega), List.flatten_cons]
      refine hc.bind ?_
      rw [if_neg (by omega), push_of_room hroom]
      exact Takes.bind (takes_ofExcept.mpr ⟨rfl, rfl⟩)
        (takes_readLoop hrest hslots' (by omega))

/-! ## Pools -/

/-- A pool is read from its count and the bytes of its constants, one by one. The count is that of
the pool, unless it is zero. -/
theorem exists_parts (h : read.Takes used pool) :
    ∃ (count : UInt16) (parts : List Bytes) (constants : List Constant),
      used = Bytes.word16 count ++ parts.flatten ∧
        List.Forall₂ Constant.read.Takes parts constants ∧ pool.IsRowOf constants ∧
        (constants ≠ [] → pool.count = count.toNat) := by
  obtain ⟨_, _, count, rfl, hcount, hloop⟩ := takes_bind.mp h
  obtain ⟨parts, constants, hparts, rfl, hslots, hsize⟩ := readLoop_parts hloop
  refine ⟨count, parts, constants, by rw [takes_word16.mp hcount], hparts, hslots, fun hne => ?_⟩
  have hone : empty.count = 1 := rfl
  by_cases hzero : count.toNat = 0
  · rw [hzero] at hloop
    obtain ⟨-, rfl⟩ := takes_pure.mp hloop
    cases constants with
    | nil => exact (hne rfl).elim
    | cons c constants => cases hslots
  · exact hsize (by omega) (by omega)

/-- A pool that was read can be read and written. -/
theorem write_of_takes (h : read.Takes used pool) :
    pool.IsReadable ∧ ∃ bytes, pool.write = .ok bytes := by
  obtain ⟨-, parts, constants, -, hparts, hrow, -⟩ := exists_parts h
  have hall : ∀ c ∈ constants, c.IsNormal ∧ ∃ bytes, c.write = .ok bytes := by
    intro c hc
    obtain ⟨part, hpart⟩ := Success.exists_of_mem_right hparts c hc
    exact Constant.write_of_takes hpart
  obtain ⟨written, hwritten⟩ := Success.exists_forall₂ fun c hc => (hall c hc).2
  exact ⟨⟨constants, hrow, fun c hc => (hall c hc).1⟩,
    _, hrow.write_eq_ok_iff.mpr ⟨written, hwritten, rfl⟩⟩

/-- A pool that was written is read again. -/
theorem takes_of_write (hread : pool.IsReadable) (h : pool.write = .ok bytes) :
    read.Takes bytes pool := by
  obtain ⟨constants, hrow, hnormal⟩ := hread
  obtain ⟨parts, hparts, rfl⟩ := hrow.write_eq_ok_iff.mp h
  have htakes : List.Forall₂ Constant.read.Takes parts constants :=
    (((List.forall₂_and_left _ _).mpr ⟨hnormal, hparts⟩).imp fun _ _ h =>
      Constant.takes_of_write h.1 h.2).flip
  refine Takes.bind (takes_word16.mpr rfl) ?_
  have hcount : (UInt16.ofNat pool.count).toNat = pool.count := by
    rw [UInt16.toNat_ofNat']
    exact Nat.mod_eq_of_lt (Nat.lt_succ_of_le pool.size_le)
  rw [hcount]
  exact takes_readLoop htakes hrow (Nat.le_add_left _ _)

end ClassText.ConstantPool
