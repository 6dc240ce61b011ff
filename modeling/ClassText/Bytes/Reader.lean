import ClassText.Fault

/-!
# Readers

A reader takes a value off the front of some bytes and leaves the rest, or says
why it cannot.

Every reader obeys one law, which is part of its type: what it takes depends on
the bytes it takes alone. Whatever follows those bytes instead is left
untouched, and the value is the same. So a reader never looks ahead, and
readers one after the other obey the law again.
-/

namespace ClassText

structure ByteReader (α : Type) where
  run : Bytes → Except ClassError (α × Bytes)
  law : ∀ {bytes a rest}, run bytes = .ok (a, rest) →
    ∃ used, bytes = used ++ rest ∧ ∀ other, run (used ++ other) = .ok (a, other)

namespace ByteReader

variable {α β : Type}

theorem length_le (x : ByteReader α) {bytes rest : Bytes} {a : α}
    (h : x.run bytes = .ok (a, rest)) : rest.length ≤ bytes.length := by
  obtain ⟨used, rfl, _⟩ := x.law h
  simp

instance : Monad ByteReader where
  pure a := ⟨fun bytes => .ok (a, bytes), fun h => ⟨[], by simp_all⟩⟩
  bind x f :=
    { run := fun bytes =>
        match x.run bytes with
        | .error e => .error e
        | .ok (a, rest) => (f a).run rest
      law := by
        intro bytes b rest h
        split at h
        · simp at h
        · next a middle hx =>
          obtain ⟨used, rfl, hused⟩ := x.law hx
          obtain ⟨more, rfl, hmore⟩ := (f a).law h
          exact ⟨used ++ more, by simp, fun other => by simp [hused, hmore]⟩ }

theorem run_pure (a : α) (bytes : Bytes) :
    (pure a : ByteReader α).run bytes = .ok (a, bytes) := rfl

theorem run_bind (x : ByteReader α) (f : α → ByteReader β) (bytes : Bytes) :
    (x >>= f).run bytes = match x.run bytes with
      | .error e => .error e
      | .ok (a, rest) => (f a).run rest := rfl

def fail (error : ClassError) : ByteReader α :=
  ⟨fun _ => .error error, fun h => by simp at h⟩

/-- Take nothing, and go on with a result that is already there. -/
def ofExcept : Except ClassError α → ByteReader α
  | .ok a => pure a
  | .error e => fail e

def byte : ByteReader UInt8 where
  run
    | [] => .error (.malformed .unexpectedEnd)
    | b :: rest => .ok (b, rest)
  law := by
    intro bytes a rest h
    split at h
    · simp at h
    · simp only [Except.ok.injEq, Prod.mk.injEq] at h
      obtain ⟨rfl, rfl⟩ := h
      exact ⟨[_], rfl, fun _ => rfl⟩

def take (count : Nat) : ByteReader Bytes where
  run bytes :=
    let front := bytes.take count
    if front.length = count then .ok (front, bytes.drop count)
    else .error (.malformed .unexpectedEnd)
  law := by
    intro bytes a rest h
    simp only at h
    split at h
    · next hlen =>
      simp only [Except.ok.injEq, Prod.mk.injEq] at h
      obtain ⟨rfl, rfl⟩ := h
      refine ⟨bytes.take count, (List.take_append_drop _ _).symm, fun other => ?_⟩
      simp only [List.take_append, List.drop_append, hlen, Nat.sub_self, List.take_zero,
        List.drop_zero, List.append_nil, List.take_take, Nat.min_self, if_true]
      have : (bytes.take count).drop count = [] := by
        apply List.drop_eq_nil_of_le; omega
      simp [this]
    · simp at h

/-- One after the other, so many times; `read` holds what came before, in reverse. -/
def timesLoop (item : ByteReader α) : Nat → List α → Bytes → Except ClassError (List α × Bytes)
  | 0, read, bytes => .ok (read.reverse, bytes)
  | count + 1, read, bytes =>
    match item.run bytes with
    | .error e => .error e
    | .ok (a, rest) => timesLoop item count (a :: read) rest

theorem timesLoop_law (item : ByteReader α) {count : Nat} {read result : List α}
    {bytes rest : Bytes} (h : timesLoop item count read bytes = .ok (result, rest)) :
    ∃ used, bytes = used ++ rest ∧
      ∀ other, timesLoop item count read (used ++ other) = .ok (result, other) := by
  induction count generalizing read bytes with
  | zero =>
    simp only [timesLoop, Except.ok.injEq, Prod.mk.injEq] at h
    exact ⟨[], by simp [h.2], fun other => by simp [timesLoop, h.1]⟩
  | succ count ih =>
    simp only [timesLoop] at h
    split at h
    · simp at h
    · next a middle ha =>
      obtain ⟨used, rfl, hused⟩ := item.law ha
      obtain ⟨more, rfl, hmore⟩ := ih h
      exact ⟨used ++ more, by simp, fun other => by simp [timesLoop, hused, hmore]⟩

def times (count : Nat) (item : ByteReader α) : ByteReader (List α) :=
  ⟨timesLoop item count [], timesLoop_law item⟩

def word16 : ByteReader UInt16 := do
  let high ← byte
  let low ← byte
  return .ofNat (high.toNat * 256 + low.toNat)

def word32 : ByteReader UInt32 := do
  let high ← word16
  let low ← word16
  return .ofNat (high.toNat * 65536 + low.toNat)

def word64 : ByteReader UInt64 := do
  let high ← word32
  let low ← word32
  return .ofNat (high.toNat * 4294967296 + low.toNat)

def int8 : ByteReader Int8 := do return (← byte).toInt8

def int16 : ByteReader Int16 := do return (← word16).toInt16

def int32 : ByteReader Int32 := do return (← word32).toInt32

def int64 : ByteReader Int64 := do return (← word64).toInt64

/-- A count in sixteen bits, and as many items. -/
def counted (item : ByteReader α) : ByteReader (List α) := do
  let count ← word16
  times count.toNat item

end ByteReader

end ClassText
