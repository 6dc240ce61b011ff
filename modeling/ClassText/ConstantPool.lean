import ClassText.Fault

/-!
# The constant pool

A pool is a row of slots. Slot 0 holds nothing; a constant stands in its slot,
and a constant of width two leaves the next slot empty. Constants are only ever
added at the end, so that an index keeps its meaning.

Interning finds the first constant with the given contents, or adds one.
-/

namespace ClassText

structure ConstantPool where
  slots : Array (Option Constant)
  /-- The count has sixteen bits. -/
  size_le : slots.size ≤ 65535
deriving DecidableEq, Repr

namespace ConstantPool

def empty : ConstantPool := ⟨#[none], by decide⟩

instance : Inhabited ConstantPool := ⟨empty⟩

/-- One more than the largest index in use. -/
def count (pool : ConstantPool) : Nat := pool.slots.size

def get? (pool : ConstantPool) (index : PoolIndex) : Option Constant :=
  pool.slots[index.toNat]?.join

def entries (pool : ConstantPool) : List (Nat × Constant) :=
  pool.slots.toList.zipIdx.filterMap fun (slot, i) => slot.map (i, ·)

/-- The slots that a constant fills. -/
def slotsOf (c : Constant) : List (Option Constant) :=
  some c :: List.replicate (c.width - 1) none

theorem length_slotsOf (c : Constant) : (slotsOf c).length = c.width := by
  have := c.width_pos
  simp only [slotsOf, List.length_cons, List.length_replicate]
  omega

/-- The count of a pool stays below `2 ^ 16`. -/
def hasRoom (pool : ConstantPool) (c : Constant) : Bool := pool.count + c.width ≤ 65535

/-- Add a constant at the end. A pool without room stays as it is. -/
def add (pool : ConstantPool) (c : Constant) : ConstantPool :=
  if room : pool.hasRoom c then
    { slots := pool.slots ++ slotsOf c
      size_le := by
        rw [hasRoom, count, decide_eq_true_eq, ← length_slotsOf] at room
        rwa [← Array.length_toList, Array.toList_appendList, List.length_append,
          Array.length_toList] }
  else pool

/-- Add a constant at the end if there is room, and give its index. -/
def push (pool : ConstantPool) (c : Constant) : Except ClassError (PoolIndex × ConstantPool) :=
  if pool.hasRoom c then .ok (.ofNat pool.count, pool.add c)
  else .error (.poolOverflow c pool.count)

def find? (pool : ConstantPool) (c : Constant) : Option PoolIndex :=
  (pool.slots.findIdx? (· == some c)).map .ofNat

/-- The first index that holds the constant, which is added if there is none. -/
def intern (pool : ConstantPool) (c : Constant) : Except ClassError (PoolIndex × ConstantPool) :=
  match pool.find? c with
  | some i => .ok (i, pool)
  | none => pool.push c

/-! ## Texts -/

def text (pool : ConstantPool) (index : PoolIndex) : Except ClassError String :=
  match pool.get? index with
  | some (.utf8 text) => .ok text
  | some (.undecodable _) => .error (.malformed (.undecodableText index))
  | _ => .error (.malformed (.notText index))

def text? (pool : ConstantPool) (index : PoolIndex) : Option String :=
  match pool.get? index with
  | some (.utf8 text) => some text
  | _ => none

def className (pool : ConstantPool) (index : PoolIndex) : Except ClassError String :=
  match pool.get? index with
  | some (.classRef name) => pool.text name
  | _ => .error (.malformed (.notClass index))

def stringText? (pool : ConstantPool) (index : PoolIndex) : Option String :=
  match pool.get? index with
  | some (.string text) => pool.text? text
  | _ => none

theorem text_eq_ok_iff {pool : ConstantPool} {index : PoolIndex} {t : String} :
    pool.text index = .ok t ↔ pool.get? index = some (.utf8 t) := by
  unfold text; split <;> simp_all

theorem text?_eq_some_iff {pool : ConstantPool} {index : PoolIndex} {t : String} :
    pool.text? index = some t ↔ pool.get? index = some (.utf8 t) := by
  unfold text?; split <;> simp_all

end ConstantPool

/-! ## Changing a pool

Interning several constants leaves those behind that found room, also when the
last one did not. So a change gives back a pool in any case. -/

/-- A result or an error, and the pool that is left in either case. -/
abbrev PoolChange (α : Type) := ExceptT ClassError (StateM ConstantPool) α

namespace PoolChange

/-- A change that leaves the pool as it was if it fails. -/
def ofStep {α : Type} (step : ConstantPool → Except ClassError (α × ConstantPool)) :
    PoolChange α :=
  fun pool => match step pool with
    | .ok (a, pool) => (.ok a, pool)
    | .error e => (.error e, pool)

def ofExcept {α : Type} (result : Except ClassError α) : PoolChange α :=
  fun pool => (result, pool)

def intern (c : Constant) : PoolChange PoolIndex :=
  ofStep (·.intern c)

/-- The first index that holds the text. A text that is new must fit in 65535 bytes. -/
def internText (text : String) : PoolChange PoolIndex :=
  ofStep fun pool =>
    match pool.find? (.utf8 text) with
    | some index => .ok (index, pool)
    | none =>
      let length := ModifiedUtf8.encodedLength text
      if 65535 < length then .error (.textTooLong length)
      else pool.push (.utf8 text)

def internString (text : PoolIndex) : PoolChange PoolIndex :=
  intern (.string text)

/-- The first index that holds the class of this name. The name stays in the pool when there
is no room for the class. -/
def internClass (name : String) : PoolChange PoolIndex := do
  intern (.classRef (← internText name))

end PoolChange

end ClassText
