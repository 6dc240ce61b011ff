import ClassText.Proofs.ConstantPool.Store
import Mathlib.Data.List.Induction

/-!
# A pool with tables of places

A pool need not be searched. It can keep three tables beside its constants, which
give the places of texts, of strings by their text and of classes by their name.
A push notes the place of its constant in one of them, unless something is noted
there already, and interning looks into the table alone.

Such a pool gives the same answers. A step of it is a step of the pool that is
searched, with the same result, and leaves tables that say what the search finds
(`IndexedPool.simulates_run`). So the two stay together from the empty pool on, and
from a pool that was read, since reading is pushing (`ConstantPool.IsReached.indexed`).
-/

namespace ClassText

open ConstantPool

/-- A pool with the places of its texts, strings and classes. -/
structure IndexedPool where
  /-- The constants in order, each with its index. -/
  entries : List (Nat × Constant)
  /-- The index of the next constant. -/
  next : Nat
  texts : Std.HashMap String PoolIndex
  strings : Std.HashMap PoolIndex PoolIndex
  classes : Std.HashMap PoolIndex PoolIndex

namespace IndexedPool

def empty : IndexedPool := ⟨[], 1, ∅, ∅, ∅⟩

/-- The constant with this index. The indices ascend, so there is no other one to be found. -/
def get? (store : IndexedPool) (i : PoolIndex) : Option Constant :=
  store.entries.lookup i.toNat

/-- Note the place of a constant, unless its table has one for the same contents. -/
def note (store : IndexedPool) (c : Constant) (i : PoolIndex) : IndexedPool :=
  match c with
  | .utf8 text => { store with texts := store.texts.insertIfNew text i }
  | .string text => { store with strings := store.strings.insertIfNew text i }
  | .classRef name => { store with classes := store.classes.insertIfNew name i }
  | _ => store

def append (store : IndexedPool) (c : Constant) : IndexedPool :=
  { store with
    entries := store.entries ++ [(store.next, c)]
    next := store.next + c.width }

/-- A result or an error, and what is left in either case. -/
abbrev Change (α : Type) := ExceptT ClassError (StateM IndexedPool) α

def push (c : Constant) : Change PoolIndex := fun store =>
  if store.next + c.width ≤ 65535 then
    (.ok (.ofNat store.next), (store.note c (.ofNat store.next)).append c)
  else (.error (.poolOverflow c store.next), store)

def internText (text : String) : Change PoolIndex := fun store =>
  match store.texts[text]? with
  | some i => (.ok i, store)
  | none =>
    let length := ModifiedUtf8.encodedLength text
    if 65535 < length then (.error (.textTooLong length), store)
    else push (.utf8 text) store

/-- The place of the constant in its table. If it has none, it is pushed. -/
def intern (place? : IndexedPool → Option PoolIndex) (c : Constant) : Change PoolIndex :=
  fun store =>
    match place? store with
    | some i => (.ok i, store)
    | none => push c store

def internString (text : PoolIndex) : Change PoolIndex :=
  intern (·.strings[text]?) (.string text)

def internClass (name : String) : Change PoolIndex := do
  let text ← internText name
  intern (·.classes[text]?) (.classRef text)

def run : PoolCall → Change PoolIndex
  | .push c => push c
  | .internText text => internText text
  | .internString text => internString text
  | .internClass name => internClass name

/-- What is left by calls, each of which may fail. -/
def runAll (store : IndexedPool) (calls : List PoolCall) : IndexedPool :=
  calls.foldl (fun store call => (run call store).2) store

/-! ## Tables that say what the search finds -/

variable {store : IndexedPool} {pool grown : ConstantPool} {c : Constant} {i : PoolIndex}

/-- The same constants stand in both pools, and the tables say where the search finds them. -/
structure Indexes (store : IndexedPool) (pool : ConstantPool) : Prop where
  entries : store.entries = pool.entries
  next : store.next = pool.count
  texts : ∀ text, store.texts[text]? = pool.find? (.utf8 text)
  strings : ∀ text, store.strings[text]? = pool.find? (.string text)
  classes : ∀ name, store.classes[name]? = pool.find? (.classRef name)

theorem find?_empty (c : Constant) : ConstantPool.empty.find? c = none :=
  find?_eq_findIdx? .empty c

theorem indexes_empty : empty.Indexes .empty where
  entries := rfl
  next := rfl
  texts _ := Std.HashMap.getElem?_empty.trans (find?_empty _).symm
  strings _ := Std.HashMap.getElem?_empty.trans (find?_empty _).symm
  classes _ := Std.HashMap.getElem?_empty.trans (find?_empty _).symm

theorem lookup_eq_some_iff {entries : List (Nat × Constant)} {n : Nat}
    (h : entries.Pairwise fun e later => e.1 < later.1) :
    entries.lookup n = some c ↔ (n, c) ∈ entries := by
  induction entries with
  | nil => simp
  | cons entry rest ih =>
    obtain ⟨k, d⟩ := entry
    obtain ⟨hlt, hrest⟩ := List.pairwise_cons.mp h
    rw [List.lookup_cons, List.mem_cons, Prod.mk.injEq]
    by_cases hk : n = k
    · subst hk
      have habsent : (n, c) ∉ rest := fun hc => Nat.lt_irrefl n (hlt _ hc)
      simp [habsent, eq_comm]
    · simp [hk, beq_false_of_ne hk, ih hrest]

/-- What the first pool finds at an index is what the second one finds there. -/
theorem Indexes.get? (h : store.Indexes pool) (hstore : pool.IsStore) (i : PoolIndex) :
    store.get? i = pool.get? i := by
  refine Option.ext fun c => ?_
  rw [IndexedPool.get?, h.entries, lookup_eq_some_iff hstore.ascending, hstore.get?_iff]

/-! ## Steps of both pools -/

theorem getElem?_insertIfNew {κ : Type} [BEq κ] [LawfulBEq κ] [DecidableEq κ] [Hashable κ]
    (table : Std.HashMap κ PoolIndex) (key k : κ) (i : PoolIndex) :
    (table.insertIfNew key i)[k]? = table[k]?.or (if k = key then some i else none) := by
  rw [Std.HashMap.getElem?_insertIfNew]
  by_cases hk : k = key
  · subst hk
    cases hfound : table[k]? <;> simp [Std.HashMap.mem_iff_isSome_getElem?, hfound]
  · simp [hk, Ne.symm hk]

theorem entries_push (h : pool.push c = .ok (i, grown)) :
    grown.entries = pool.entries ++ [(pool.count, c)] ∧ grown.count = pool.count + c.width := by
  obtain ⟨-, hslots⟩ := push_eq_ok h
  constructor
  · show placed grown.slots.toList 0 = placed pool.slots.toList 0 ++ _
    rw [hslots, placed_append, placed_slotsOf, Nat.zero_add, count_eq_length]
  · rw [count_eq_length, hslots, List.length_append, length_slotsOf, ← count_eq_length]

theorem Indexes.note (h : store.Indexes pool) (hpush : pool.push c = .ok (i, grown)) :
    ((store.note c i).append c).Indexes grown := by
  obtain ⟨hentries, hcount⟩ := entries_push hpush
  have hrest : (store.note c i).entries = store.entries ∧ (store.note c i).next = store.next := by
    cases c <;> exact ⟨rfl, rfl⟩
  exact {
    entries := by rw [append, hrest.1, hrest.2, hentries, h.entries, h.next]
    next := by rw [append, hrest.2, hcount, h.next]
    texts := fun text => by
      rw [find?_push hpush, ← h.texts, append]
      cases c with
      | utf8 t => simp [IndexedPool.note, getElem?_insertIfNew]
      | _ => simp [IndexedPool.note]
    strings := fun text => by
      rw [find?_push hpush, ← h.strings, append]
      cases c with
      | string t => simp [IndexedPool.note, getElem?_insertIfNew]
      | _ => simp [IndexedPool.note]
    classes := fun name => by
      rw [find?_push hpush, ← h.classes, append]
      cases c with
      | classRef t => simp [IndexedPool.note, getElem?_insertIfNew]
      | _ => simp [IndexedPool.note] }

/-- Both changes have the same result, and leave pools that stay together. -/
def Simulates {α : Type} (change : Change α) (searched : PoolChange α) : Prop :=
  ∀ (store : IndexedPool) (pool : ConstantPool), store.Indexes pool →
    (change store).1 = (searched pool).1 ∧ (change store).2.Indexes (searched pool).2

theorem Simulates.bind {α β : Type} {change : Change α} {searched : PoolChange α}
    {next : α → Change β} {searchedNext : α → PoolChange β} (h : Simulates change searched)
    (hnext : ∀ a, Simulates (next a) (searchedNext a)) :
    Simulates (change >>= next) (searched >>= searchedNext) := by
  intro store pool hindexes
  obtain ⟨hresult, hleft⟩ := h store pool hindexes
  rw [PoolChange.run_bind, PoolChange.run_bind, ← hresult]
  cases (change store).1 with
  | ok a => exact hnext a _ _ hleft
  | error e => exact ⟨rfl, hleft⟩

theorem simulates_push (c : Constant) :
    Simulates (push c) (PoolChange.ofStep (·.push c)) := by
  intro store pool h
  by_cases hroom : pool.count + c.width ≤ 65535
  · have hpush : pool.push c = .ok (.ofNat pool.count, pool.add c) :=
      if_pos (decide_eq_true hroom)
    rw [push, if_pos (by rwa [h.next]), PoolChange.ofStep, hpush, h.next]
    exact ⟨rfl, h.note hpush⟩
  · have hpush : pool.push c = .error (.poolOverflow c pool.count) :=
      if_neg (by rw [hasRoom, decide_eq_true_eq]; exact hroom)
    rw [push, if_neg (by rwa [h.next]), PoolChange.ofStep, hpush, h.next]
    exact ⟨rfl, h⟩

theorem simulates_internText (text : String) :
    Simulates (internText text) (PoolChange.internText text) := by
  intro store pool h
  rw [internText, h.texts, PoolChange.internText, PoolChange.ofStep]
  cases hfind : pool.find? (.utf8 text) with
  | some i => exact ⟨rfl, h⟩
  | none =>
    dsimp only
    split
    · exact ⟨rfl, h⟩
    · exact simulates_push _ _ _ h

theorem simulates_intern {place? : IndexedPool → Option PoolIndex}
    (hplace : ∀ {store pool}, store.Indexes pool → place? store = pool.find? c) :
    Simulates (intern place? c) (PoolChange.intern c) := by
  intro store pool h
  rw [intern, hplace h, PoolChange.intern, PoolChange.ofStep, ConstantPool.intern]
  cases hfind : pool.find? c with
  | some i => exact ⟨rfl, h⟩
  | none => exact simulates_push _ _ _ h

theorem simulates_run (call : PoolCall) : Simulates (run call) call.run := by
  cases call with
  | push c => exact simulates_push c
  | internText text => exact simulates_internText text
  | internString text => exact simulates_intern fun h => h.strings text
  | internClass name =>
    exact (simulates_internText name).bind fun text => simulates_intern fun h => h.classes text

theorem Indexes.runAll (h : store.Indexes pool) (calls : List PoolCall) :
    (store.runAll calls).Indexes (PoolCall.runAll calls pool) := by
  induction calls generalizing store pool with
  | nil => exact h
  | cons call calls ih => exact ih (simulates_run call store pool h).2

/-! ## Pools that are reached -/

/-- A row of constants is what is left when they are pushed one after the other. -/
theorem indexes_of_isRowOf {constants : List Constant} (h : pool.IsRowOf constants) :
    (empty.runAll (constants.map .push)).Indexes pool := by
  induction constants using List.reverseRecOn generalizing pool with
  | nil =>
    obtain rfl : pool = .empty := eq_of_slots h
    exact indexes_empty
  | append_singleton constants c ih =>
    have hslots : pool.slots.toList = none :: constants.flatMap slotsOf ++ slotsOf c := by
      rw [h, List.flatMap_append, List.flatMap_singleton, List.cons_append]
    have hcount : (none :: constants.flatMap slotsOf).length + c.width ≤ 65535 := by
      rw [← length_slotsOf, ← List.length_append, ← hslots, Array.length_toList]
      exact pool.size_le
    let before : ConstantPool := ⟨(none :: constants.flatMap slotsOf).toArray, by
      rw [List.size_toArray]
      exact Nat.le_of_add_right_le hcount⟩
    have hpush : before.push c = .ok (.ofNat before.count, pool) := push_of_slots hcount
      (UInt16.toNat_ofNat_of_lt (Nat.lt_succ_of_le before.size_le)) hslots
    have hleft := (simulates_push c _ before (ih rfl)).2
    rw [PoolChange.ofStep, hpush] at hleft
    rw [List.map_append, runAll, List.foldl_append]
    exact hleft

end IndexedPool

/-- A pool that was empty or read, after any calls, is described by tables that calls have left of
the empty ones. From then on all calls have the same results with the tables as with the search,
and the same constants are found. -/
theorem ConstantPool.IsReached.indexed {pool : ConstantPool} (h : pool.IsReached) :
    ∃ earlier, ∀ calls, let store := (IndexedPool.empty.runAll earlier).runAll calls
      let searched := PoolCall.runAll calls pool
      store.Indexes searched ∧ (∀ i, store.get? i = searched.get? i) ∧
        ∀ call, (IndexedPool.run call store).1 = (call.run searched).1 := by
  have hindexes : ∃ earlier, (IndexedPool.empty.runAll earlier).Indexes pool := by
    induction h with
    | empty => exact ⟨[], IndexedPool.indexes_empty⟩
    | read hrun =>
      obtain ⟨constants, hrow⟩ := (IsReached.read hrun).exists_row
      exact ⟨constants.map .push, IndexedPool.indexes_of_isRowOf hrow⟩
    | called _ call ih =>
      obtain ⟨earlier, hindexes⟩ := ih
      refine ⟨earlier ++ [call], ?_⟩
      rw [IndexedPool.runAll, List.foldl_append]
      exact hindexes.runAll [call]
  obtain ⟨earlier, hindexes⟩ := hindexes
  refine ⟨earlier, fun calls => ?_⟩
  have hall := hindexes.runAll calls
  obtain ⟨constants, hrow⟩ := (h.runAll calls).exists_row
  exact ⟨hall, hall.get? (isStore_of_isRowOf hrow),
    fun call => (IndexedPool.simulates_run call _ _ hall).1⟩

end ClassText
