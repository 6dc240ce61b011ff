import ClassText.Bytes

/-!
# Modified UTF-8

The text of a constant is stored unit by unit in UTF-16: one to three bytes for
each code unit, so that a character beyond the basic plane takes two groups of
three bytes. NUL takes two bytes, and no byte of an encoding is zero.

Reading undoes writing, but it is more liberal: a group of two or three bytes
is accepted whatever unit it spells. Two kinds of byte strings are refused:
those that do not split into groups, and those whose units hold a surrogate
without its partner.
-/

namespace ClassText.ModifiedUtf8

/-- The UTF-16 code units of a character. -/
def unitsOf (c : Char) : List Nat :=
  let v := c.toNat
  if v < 0x10000 then [v]
  else [0xD800 + (v - 0x10000) / 0x400, 0xDC00 + (v - 0x10000) % 0x400]

def unitLength (u : Nat) : Nat :=
  if 1 ≤ u ∧ u ≤ 0x7F then 1
  else if u ≤ 0x7FF then 2
  else 3

def encodeUnit (u : Nat) : Bytes :=
  if 1 ≤ u ∧ u ≤ 0x7F then [.ofNat u]
  else if u ≤ 0x7FF then [.ofNat (0xC0 + u / 64), .ofNat (0x80 + u % 64)]
  else [.ofNat (0xE0 + u / 4096), .ofNat (0x80 + u / 64 % 64), .ofNat (0x80 + u % 64)]

def encodeChar (c : Char) : Bytes :=
  (unitsOf c).flatMap encodeUnit

def encode (text : String) : Bytes :=
  text.toList.flatMap encodeChar

/-- How many bytes `encode` gives, without writing them. -/
def encodedLength (text : String) : Nat :=
  (text.toList.flatMap unitsOf).foldl (fun n u => n + unitLength u) 0

/-- Second and third bytes of a group carry six bits each. -/
def continuation? (b : UInt8) : Option Nat :=
  if b.toNat / 64 = 2 then some (b.toNat % 64) else none

/-- The first code unit of some bytes, and the bytes after it. -/
def decodeUnit? : Bytes → Option (Nat × Bytes)
  | [] => none
  | b :: rest =>
    let v := b.toNat
    if 1 ≤ v ∧ v ≤ 0x7F then some (v, rest)
    else if 0xC0 ≤ v ∧ v ≤ 0xDF then
      match rest with
      | b₂ :: rest => (continuation? b₂).map fun low => ((v - 0xC0) * 64 + low, rest)
      | [] => none
    else if 0xE0 ≤ v ∧ v ≤ 0xEF then
      match rest with
      | b₂ :: b₃ :: rest =>
        match continuation? b₂, continuation? b₃ with
        | some mid, some low => some ((v - 0xE0) * 4096 + mid * 64 + low, rest)
        | _, _ => none
      | _ => none
    else none

theorem decodeUnit?_length {bytes rest : Bytes} {u : Nat}
    (h : decodeUnit? bytes = some (u, rest)) : rest.length < bytes.length := by
  match bytes with
  | [] => simp [decodeUnit?] at h
  | b :: tail =>
    simp only [decodeUnit?] at h
    split at h
    · simp only [Option.some.injEq, Prod.mk.injEq] at h
      simp [← h.2]
    · split at h
      · match tail with
        | [] => simp at h
        | b₂ :: tail =>
          simp only [Option.map_eq_some_iff, Prod.mk.injEq] at h
          obtain ⟨_, _, _, rfl⟩ := h
          simp only [List.length_cons]; omega
      · split at h
        · match tail with
          | [] => simp at h
          | [_] => simp at h
          | b₂ :: b₃ :: tail =>
            simp only at h
            split at h
            · simp only [Option.some.injEq, Prod.mk.injEq] at h
              obtain ⟨_, rfl⟩ := h
              simp only [List.length_cons]; omega
            · simp at h
        · simp at h

/-- All code units of some bytes, after those already read (kept in reverse). -/
def decodeUnits (read : List Nat) (bytes : Bytes) : Option (List Nat) :=
  if bytes.isEmpty then some read.reverse
  else
    match h : decodeUnit? bytes with
    | none => none
    | some (u, rest) =>
      have := decodeUnit?_length h
      decodeUnits (u :: read) rest
termination_by bytes.length

/-- The characters that code units spell, after those already read (kept in reverse). -/
def charsOfUnits (read : List Char) : List Nat → Option (List Char)
  | [] => some read.reverse
  | [u] =>
    if 0xD800 ≤ u ∧ u ≤ 0xDFFF then none else some (Char.ofNat u :: read).reverse
  | u :: l :: rest =>
    if 0xD800 ≤ u ∧ u ≤ 0xDBFF then
      if 0xDC00 ≤ l ∧ l ≤ 0xDFFF then
        charsOfUnits (Char.ofNat (0x10000 + (u - 0xD800) * 0x400 + (l - 0xDC00)) :: read) rest
      else none
    else if 0xDC00 ≤ u ∧ u ≤ 0xDFFF then none
    else charsOfUnits (Char.ofNat u :: read) (l :: rest)

/-- The text that some bytes spell, if they spell one. -/
def decode? (bytes : Bytes) : Option String := do
  let units ← decodeUnits [] bytes
  let chars ← charsOfUnits [] units
  return String.ofList chars

end ClassText.ModifiedUtf8
