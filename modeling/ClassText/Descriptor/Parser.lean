import ClassText.Descriptor

/-!
# Reading descriptors

A descriptor is read from left to right; each function takes a type off the
front of the characters and leaves the rest. A fault keeps the characters that
were left when it was found, which gives its position in bytes.
-/

namespace ClassText

inductive DescriptorProblem where
  | expectedBaseType
  | expectedClass
  | unterminatedName
  | badName (fault : NameFault)
  | missingType
  | expectedParameters
  | unterminatedParameters
  | trailingCharacters
deriving DecidableEq, Repr

def DescriptorProblem.message : DescriptorProblem → String
  | expectedBaseType => "expected a primitive type"
  | expectedClass => "expected 'L'"
  | unterminatedName => "unterminated class name"
  | badName fault => fault.message
  | missingType => "missing field type"
  | expectedParameters => "expected '('"
  | unterminatedParameters => "expected ')'"
  | trailingCharacters => "trailing characters"

structure DescriptorFault where
  position : Nat
  problem : DescriptorProblem
deriving DecidableEq, Repr

def DescriptorFault.message (fault : DescriptorFault) : String :=
  "bad descriptor at " ++ toString fault.position ++ ": " ++ fault.problem.message

namespace Descriptor

/-- A problem, and the characters from its position on. -/
abbrev Stop := DescriptorProblem × List Char

/-- What was read, and the characters after it. -/
abbrev Taken (α : Type) := Except Stop (α × List Char)

def readBase : List Char → Taken BaseType
  | [] => .error (.expectedBaseType, [])
  | c :: rest =>
    match BaseType.ofLetter? c with
    | some t => .ok (t, rest)
    | none => .error (.expectedBaseType, c :: rest)

/-- A class name between `L` and a semicolon. -/
def readName : List Char → Taken String
  | 'L' :: rest =>
    match rest.dropWhile (· != ';') with
    | [] => .error (.unterminatedName, rest)
    | _ :: after =>
      match ClassName.check (String.ofList (rest.takeWhile (· != ';'))) with
      | .ok name => .ok (name, after)
      | .error fault => .error (.badName fault, rest)
  | cs => .error (.expectedClass, cs)

def readElement : List Char → Taken ElementType
  | 'L' :: rest => (readName ('L' :: rest)).map fun (name, after) => (.object name, after)
  | cs => (readBase cs).map fun (t, after) => (.base t, after)

def readRef (cs : List Char) : Taken RefType :=
  match cs.takeWhile (· == '[') with
  | [] => (readName cs).map fun (name, rest) => (.object name, rest)
  | _ :: more =>
    (readElement (cs.dropWhile (· == '['))).map fun (element, rest) =>
      (.array more.length element, rest)

def readField : List Char → Taken FieldType
  | [] => .error (.missingType, [])
  | c :: rest =>
    if c = 'L' ∨ c = '[' then (readRef (c :: rest)).map fun (t, rest) => (.ref t, rest)
    else (readBase (c :: rest)).map fun (t, rest) => (.base t, rest)

/-! ## Every type takes at least one character -/

theorem length_dropWhile_le (p : Char → Bool) (cs : List Char) :
    (cs.dropWhile p).length ≤ cs.length :=
  (List.dropWhile_suffix p).length_le

theorem readBase_length {cs rest : List Char} {t : BaseType}
    (h : readBase cs = .ok (t, rest)) : rest.length < cs.length := by
  unfold readBase at h
  split at h
  · simp at h
  · split at h
    · simp only [Except.ok.injEq, Prod.mk.injEq] at h
      simp [← h.2]
    · simp at h

theorem readName_length {cs rest : List Char} {name : String}
    (h : readName cs = .ok (name, rest)) : rest.length < cs.length := by
  unfold readName at h
  split at h
  · next tail =>
    split at h
    · simp at h
    · next hd =>
      split at h
      · simp only [Except.ok.injEq, Prod.mk.injEq] at h
        have hle := length_dropWhile_le (· != ';') tail
        rw [hd] at hle
        simp only [List.length_cons] at hle ⊢
        rw [← h.2]; omega
      · simp at h
  · simp at h

/-- What a step leaves is shorter, also after its result is renamed. -/
theorem map_length {α β : Type} {cs rest : List Char} {x : Taken α} {f : α → β} {b : β}
    (hx : ∀ {a r}, x = .ok (a, r) → r.length < cs.length)
    (h : x.map (fun p => (f p.1, p.2)) = .ok (b, rest)) : rest.length < cs.length := by
  match x with
  | .error _ => simp [Except.map] at h
  | .ok (a, r) =>
    simp only [Except.map, Except.ok.injEq, Prod.mk.injEq] at h
    rw [← h.2]; exact hx rfl

theorem readElement_length {cs rest : List Char} {t : ElementType}
    (h : readElement cs = .ok (t, rest)) : rest.length < cs.length := by
  unfold readElement at h
  split at h
  · exact map_length (fun h => readName_length h) h
  · exact map_length (fun h => readBase_length h) h

theorem readRef_length {cs rest : List Char} {t : RefType}
    (h : readRef cs = .ok (t, rest)) : rest.length < cs.length := by
  unfold readRef at h
  split at h
  · exact map_length (fun h => readName_length h) h
  · have := length_dropWhile_le (· == '[') cs
    exact map_length (fun h => Nat.lt_of_lt_of_le (readElement_length h) this) h

theorem readField_length {cs rest : List Char} {t : FieldType}
    (h : readField cs = .ok (t, rest)) : rest.length < cs.length := by
  unfold readField at h
  split at h
  · simp at h
  · split at h
    · exact map_length (fun h => readRef_length h) h
    · exact map_length (fun h => readBase_length h) h

/-! ## Methods -/

/-- The parameters up to the closing parenthesis, after those already read (kept in reverse). -/
def readParameters (read : List FieldType) (cs : List Char) : Taken (List FieldType) :=
  match cs with
  | [] => .error (.unterminatedParameters, [])
  | c :: rest =>
    if c = ')' then .ok (read.reverse, rest)
    else
      match h : readField (c :: rest) with
      | .error stop => .error stop
      | .ok (t, after) =>
        have := readField_length h
        readParameters (t :: read) after
termination_by cs.length
decreasing_by assumption

def readResult : List Char → Taken (Option FieldType)
  | 'V' :: rest => .ok (none, rest)
  | cs => (readField cs).map fun (t, rest) => (some t, rest)

def readMethod : List Char → Taken MethodType
  | '(' :: rest =>
    match readParameters [] rest with
    | .error stop => .error stop
    | .ok (parameters, rest) =>
      (readResult rest).map fun (result, rest) => (⟨parameters, result⟩, rest)
  | cs => .error (.expectedParameters, cs)

/-! ## Whole descriptors -/

def byteLength (cs : List Char) : Nat :=
  cs.foldl (fun n c => n + c.utf8Size) 0

def parse {α : Type} (read : List Char → Taken α) (text : String) : Except DescriptorFault α :=
  let fault (stop : Stop) : DescriptorFault :=
    ⟨text.utf8ByteSize - byteLength stop.2, stop.1⟩
  match read text.toList with
  | .error stop => .error (fault stop)
  | .ok (a, []) => .ok a
  | .ok (_, rest) => .error (fault (.trailingCharacters, rest))

end Descriptor

def BaseType.parse (text : String) : Except DescriptorFault BaseType :=
  Descriptor.parse Descriptor.readBase text

def RefType.parse (text : String) : Except DescriptorFault RefType :=
  Descriptor.parse Descriptor.readRef text

def FieldType.parse (text : String) : Except DescriptorFault FieldType :=
  Descriptor.parse Descriptor.readField text

def MethodType.parse (text : String) : Except DescriptorFault MethodType :=
  Descriptor.parse Descriptor.readMethod text

def ClassName.parse (text : String) : Except DescriptorFault String :=
  Descriptor.parse Descriptor.readName text

/-- The type that the text of a class constant refers to. -/
def RefType.ofConstantText (text : String) : Except DescriptorFault RefType :=
  if text.toList.head? = some '[' then RefType.parse text
  else match ClassName.check text with
    | .ok name => .ok (.object name)
    | .error fault => .error ⟨0, .badName fault⟩

end ClassText
