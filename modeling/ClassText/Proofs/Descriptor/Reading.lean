import ClassText.Descriptor.Parser
import ClassText.Proofs.Hierarchy.Order
import ClassText.Proofs.Name
import ClassText.Proofs.Success
import Mathlib.Data.List.TakeWhile

/-!
# Descriptors say what they are read as

What a function takes off the front of some characters is the text of a type
whose class names are valid, and it takes that text whatever comes after it. So
each reader is described by one equivalence, and those of larger types follow
from those of their parts. That works because no valid name holds a semicolon
or a bracket: the end of a name is the first semicolon after it, and the text of
a class constant that begins with a bracket is that of an array.

So a type has one text of each kind, its descriptor and that of a class constant,
and each text that is read is the text of one type: the one it is read as
(`Descriptor.parse_isInverse`).
-/

namespace ClassText

/-- The element is not made of a class whose name is not valid. -/
def ElementType.IsNamed : ElementType → Prop
  | .base _ => True
  | .object name => ClassName.isValid name = true

/-- The type is not made of a class whose name is not valid. -/
def RefType.IsNamed (t : RefType) : Prop :=
  ∀ name, t.name? = some name → ClassName.isValid name = true

def FieldType.IsNamed : FieldType → Prop
  | .base _ => True
  | .ref t => t.IsNamed

structure MethodType.IsNamed (t : MethodType) : Prop where
  parameters : ∀ parameter ∈ t.parameters, parameter.IsNamed
  result : ∀ result ∈ t.result, result.IsNamed

theorem RefType.isNamed_object {name : String} :
    (RefType.object name).IsNamed ↔ ClassName.isValid name = true :=
  ⟨fun h => h name rfl, fun h _ heq => Option.some.inj heq ▸ h⟩

theorem RefType.isNamed_array {extra : Nat} {element : ElementType} :
    (RefType.array extra element).IsNamed ↔ element.IsNamed := by
  cases element with
  | base type => exact ⟨fun _ => trivial, fun _ _ heq => nomatch heq⟩
  | object name => exact ⟨fun h => h name rfl, fun h _ heq => Option.some.inj heq ▸ h⟩

namespace Descriptor

/-! ## Parts of types -/

theorem map_eq_ok {α β : Type} {x : Taken α} {f : α → β} {b : β} {rest : List Char} :
    x.map (fun (a, rest) => (f a, rest)) = .ok (b, rest) ↔ ∃ a, x = .ok (a, rest) ∧ f a = b := by
  rcases x with stop | ⟨a, after⟩
  · exact ⟨nofun, nofun⟩
  · simp only [Except.map, Except.ok.injEq, Prod.mk.injEq]
    exact ⟨fun ⟨hb, hrest⟩ => ⟨a, ⟨rfl, hrest⟩, hb⟩, fun ⟨_, ⟨ha, hrest⟩, hb⟩ => ⟨ha ▸ hb, hrest⟩⟩

theorem ofLetter?_eq_some {c : Char} {t : BaseType} :
    BaseType.ofLetter? c = some t ↔ c = t.letter := by
  refine ⟨fun h => ?_, fun h => h ▸ t.ofLetter?_letter⟩
  have hfound := List.find?_some h
  exact (eq_of_beq hfound).symm

theorem readBase_eq_ok {cs rest : List Char} {t : BaseType} :
    readBase cs = .ok (t, rest) ↔ cs = t.letter :: rest := by
  cases cs with
  | nil => constructor <;> intro h <;> cases h
  | cons c after =>
    rw [readBase, List.cons.injEq, ← ofLetter?_eq_some]
    split
    · next u hu =>
      rw [hu, Except.ok.injEq, Prod.mk.injEq, Option.some.injEq]
    · next hnone =>
      rw [hnone]
      constructor
      · intro h
        cases h
      · rintro ⟨h, -⟩
        cases h

theorem takeWhile_append_cons {p : Char → Bool} {cs : List Char} {c : Char} (rest : List Char)
    (hcs : ∀ d ∈ cs, p d = true) (hc : p c = false) :
    (cs ++ c :: rest).takeWhile p = cs ∧ (cs ++ c :: rest).dropWhile p = c :: rest := by
  rw [List.takeWhile_append_of_pos hcs, List.dropWhile_append_of_pos hcs]
  simp [hc]

/-- A name ends at the first semicolon. -/
theorem readName_eq_ok {cs rest : List Char} {name : String} :
    readName cs = .ok (name, rest) ↔
      cs = 'L' :: (name.toList ++ ';' :: rest) ∧ ClassName.isValid name = true := by
  constructor
  · intro h
    unfold readName at h
    split at h
    · next after =>
      split at h
      · cases h
      · next c tail hdrop =>
        have hsemicolon : c = ';' := by
          have hhead := List.head?_dropWhile_not (· != ';') after
          rw [hdrop] at hhead
          simpa using hhead
        split at h
        · next checked hcheck =>
          cases h
          obtain ⟨htext, hvalid⟩ := ClassName.check_eq_ok.mp hcheck
          refine ⟨?_, hvalid⟩
          subst hsemicolon
          rw [← htext, String.toList_ofList, ← hdrop, List.takeWhile_append_dropWhile]
        · cases h
    · cases h
  · rintro ⟨rfl, hvalid⟩
    have hlegal : ∀ c ∈ name.toList, (c != ';') = true := by
      intro c hc
      have hlegal := ClassName.not_isIllegal hvalid c hc
      rw [bne_iff_ne]
      rintro rfl
      cases hlegal
    obtain ⟨htake, hdrop⟩ := takeWhile_append_cons rest hlegal
      (show (';' != ';') = false from rfl)
    simp only [readName, hdrop, htake, String.ofList_toList,
      ClassName.check_eq_ok.mpr ⟨rfl, hvalid⟩]

theorem toList_text_base (t : BaseType) : (ElementType.base t).text.toList = [t.letter] := by
  cases t <;> rfl

theorem toList_text_object (name : String) :
    (ElementType.object name).text.toList = 'L' :: (name.toList ++ [';']) := by
  simp [ElementType.text]

/-- Neither a class nor an array begins with the letter of a base type. -/
theorem letter_ne (t : BaseType) : t.letter ≠ 'L' ∧ t.letter ≠ '[' ∧ t.letter ≠ ')' ∧
    t.letter ≠ 'V' := by
  cases t <;> decide

theorem readElement_eq_ok {cs rest : List Char} {t : ElementType} :
    readElement cs = .ok (t, rest) ↔ cs = t.text.toList ++ rest ∧ t.IsNamed := by
  unfold readElement
  split
  · next after =>
    rw [map_eq_ok]
    constructor
    · rintro ⟨name, hname, rfl⟩
      obtain ⟨htext, hvalid⟩ := readName_eq_ok.mp hname
      exact ⟨by rw [htext, toList_text_object]; simp, hvalid⟩
    · rintro ⟨htext, hvalid⟩
      cases t with
      | base t =>
        rw [toList_text_base] at htext
        exact absurd (List.cons.inj htext).1.symm (letter_ne t).1
      | object name =>
        refine ⟨name, readName_eq_ok.mpr ⟨?_, hvalid⟩, rfl⟩
        rw [htext, toList_text_object]
        simp
  · next hother =>
    rw [map_eq_ok]
    constructor
    · rintro ⟨t, ht, rfl⟩
      rw [readBase_eq_ok.mp ht, toList_text_base]
      exact ⟨rfl, trivial⟩
    · rintro ⟨htext, -⟩
      cases t with
      | base t =>
        rw [toList_text_base] at htext
        exact ⟨t, readBase_eq_ok.mpr htext, rfl⟩
      | object name =>
        rw [toList_text_object] at htext
        exact absurd htext (hother _)

/-! ## Types -/

theorem head?_text (t : ElementType) (rest : List Char) :
    (t.text.toList ++ rest).head? ≠ some '[' := by
  cases t with
  | base t =>
    rw [toList_text_base]
    simpa using (letter_ne t).2.1
  | object name => simp [toList_text_object]

/-- The dimensions end where no bracket follows. -/
theorem brackets_append (n : Nat) {cs : List Char} (h : cs.head? ≠ some '[') :
    (List.replicate n '[' ++ cs).takeWhile (· == '[') = List.replicate n '[' ∧
      (List.replicate n '[' ++ cs).dropWhile (· == '[') = cs := by
  have hbrackets : ∀ c ∈ List.replicate n '[', (c == '[') = true := fun c hc =>
    beq_iff_eq.mpr (List.eq_of_mem_replicate hc)
  rw [List.takeWhile_append_of_pos hbrackets, List.dropWhile_append_of_pos hbrackets]
  cases cs with
  | nil => simp
  | cons c cs => simp_all

theorem toList_text_array (extra : Nat) (element : ElementType) :
    (RefType.array extra element).text.toList =
      List.replicate (extra + 1) '[' ++ element.text.toList := by
  simp [RefType.text]

theorem readRef_eq_ok {cs rest : List Char} {t : RefType} :
    readRef cs = .ok (t, rest) ↔ cs = t.text.toList ++ rest ∧ t.IsNamed := by
  constructor
  · intro h
    unfold readRef at h
    split at h
    · obtain ⟨name, hname, rfl⟩ := map_eq_ok.mp h
      obtain ⟨htext, hvalid⟩ := readName_eq_ok.mp hname
      refine ⟨?_, RefType.isNamed_object.mpr hvalid⟩
      rw [htext, RefType.text, toList_text_object]
      simp
    · next first more htake =>
      obtain ⟨element, helement, rfl⟩ := map_eq_ok.mp h
      obtain ⟨htext, hnamed⟩ := readElement_eq_ok.mp helement
      refine ⟨?_, RefType.isNamed_array.mpr hnamed⟩
      have hbrackets : first :: more = List.replicate (more.length + 1) '[' := by
        refine List.eq_replicate_iff.mpr ⟨rfl, fun c hc => ?_⟩
        rw [← htake] at hc
        have hbracket := List.mem_takeWhile_imp hc
        exact eq_of_beq hbracket
      rw [toList_text_array, List.append_assoc, ← htext, ← hbrackets, ← htake,
        List.takeWhile_append_dropWhile]
  · rintro ⟨rfl, hnamed⟩
    cases t with
    | object name =>
      rw [RefType.isNamed_object] at hnamed
      unfold readRef
      rw [RefType.text, toList_text_object]
      exact map_eq_ok.mpr ⟨name, readName_eq_ok.mpr ⟨by simp, hnamed⟩, rfl⟩
    | array extra element =>
      rw [RefType.isNamed_array] at hnamed
      obtain ⟨htake, hdrop⟩ := brackets_append (extra + 1) (head?_text element rest)
      rw [readRef, toList_text_array, List.append_assoc, htake, hdrop]
      refine map_eq_ok.mpr ⟨element, readElement_eq_ok.mpr ⟨rfl, hnamed⟩, ?_⟩
      rw [List.length_replicate]

theorem head?_text_ref (t : RefType) :
    ∃ c rest, t.text.toList = c :: rest ∧ (c = 'L' ∨ c = '[') := by
  cases t with
  | object name =>
    rw [RefType.text, toList_text_object]
    exact ⟨_, _, rfl, .inl rfl⟩
  | array extra element =>
    rw [toList_text_array, List.replicate_succ]
    exact ⟨_, _, rfl, .inr rfl⟩

theorem toList_text_fieldBase (t : BaseType) : (FieldType.base t).text.toList = [t.letter] :=
  toList_text_base t

theorem readField_eq_ok {cs rest : List Char} {t : FieldType} :
    readField cs = .ok (t, rest) ↔ cs = t.text.toList ++ rest ∧ t.IsNamed := by
  cases cs with
  | nil =>
    refine ⟨nofun, ?_⟩
    rintro ⟨htext, -⟩
    have hempty := (List.append_eq_nil_iff.mp htext.symm).1
    cases t with
    | base t => cases (toList_text_fieldBase t).symm.trans hempty
    | ref t =>
      obtain ⟨c, rest, hcons, -⟩ := head?_text_ref t
      cases hcons.symm.trans hempty
  | cons c after =>
    rw [readField]
    split
    · next hfirst =>
      rw [map_eq_ok]
      constructor
      · rintro ⟨t, ht, rfl⟩
        exact readRef_eq_ok.mp ht
      · rintro ⟨htext, hnamed⟩
        cases t with
        | base t =>
          rw [toList_text_fieldBase] at htext
          obtain rfl : c = t.letter := (List.cons.inj htext).1
          exact (hfirst.elim (letter_ne t).1 (letter_ne t).2.1).elim
        | ref t => exact ⟨t, readRef_eq_ok.mpr ⟨htext, hnamed⟩, rfl⟩
    · next hfirst =>
      rw [map_eq_ok]
      constructor
      · rintro ⟨t, ht, rfl⟩
        rw [toList_text_fieldBase]
        exact ⟨readBase_eq_ok.mp ht, trivial⟩
      · rintro ⟨htext, -⟩
        cases t with
        | base t =>
          rw [toList_text_fieldBase] at htext
          exact ⟨t, readBase_eq_ok.mpr htext, rfl⟩
        | ref t =>
          obtain ⟨d, more, hcons, hd⟩ := head?_text_ref t
          rw [FieldType.text, hcons] at htext
          obtain rfl : c = d := (List.cons.inj htext).1
          exact absurd hd hfirst

/-! ## Methods -/

/-- The texts of types one behind the other. -/
def fieldTexts (types : List FieldType) : List Char :=
  types.flatMap fun t => t.text.toList

theorem head?_text_field (t : FieldType) :
    ∃ c rest, t.text.toList = c :: rest ∧ c ≠ ')' ∧ c ≠ 'V' := by
  cases t with
  | base t => exact ⟨_, _, toList_text_base t, (letter_ne t).2.2⟩
  | ref t =>
    obtain ⟨c, rest, hcons, rfl | rfl⟩ := head?_text_ref t <;>
      exact ⟨_, _, hcons, by decide, by decide⟩

theorem fieldTexts_cons (t : FieldType) (types : List FieldType) (rest : List Char) :
    fieldTexts (t :: types) ++ rest = t.text.toList ++ (fieldTexts types ++ rest) := by
  rw [fieldTexts, List.flatMap_cons, List.append_assoc, fieldTexts]

theorem readParameters_eq_ok {read types : List FieldType} {cs rest : List Char} :
    readParameters read cs = .ok (types, rest) ↔
      ∃ more, types = read.reverse ++ more ∧ cs = fieldTexts more ++ ')' :: rest ∧
        ∀ t ∈ more, t.IsNamed := by
  fun_induction readParameters read cs with
  | case1 read =>
    refine ⟨nofun, ?_⟩
    rintro ⟨more, -, htext, -⟩
    exact absurd htext.symm (List.append_ne_nil_of_right_ne_nil _ (List.cons_ne_nil _ _))
  | case2 read after =>
    rw [Except.ok.injEq, Prod.mk.injEq]
    constructor
    · rintro ⟨rfl, rfl⟩
      exact ⟨[], (List.append_nil _).symm, rfl, nofun⟩
    · rintro ⟨more, rfl, htext, -⟩
      cases more with
      | nil => exact ⟨(List.append_nil _).symm, (List.cons.inj htext).2⟩
      | cons t more =>
        obtain ⟨c, tail, hcons, hc, -⟩ := head?_text_field t
        rw [fieldTexts_cons, hcons] at htext
        exact absurd (List.cons.inj htext).1.symm hc
  | case3 read c after hclose stop hstop =>
    refine ⟨nofun, ?_⟩
    rintro ⟨more, -, htext, hnamed⟩
    cases more with
    | nil => exact absurd (List.cons.inj htext).1 hclose
    | cons t more =>
      rw [fieldTexts_cons] at htext
      have hread := readField_eq_ok.mpr ⟨htext, hnamed t List.mem_cons_self⟩
      cases hstop.symm.trans hread
  | case4 read c after hclose t rest' hread _ ih =>
    rw [ih]
    obtain ⟨htext, hnamed⟩ := readField_eq_ok.mp hread
    constructor
    · rintro ⟨more, rfl, rfl, hmore⟩
      refine ⟨t :: more, by simp, ?_, List.forall_mem_cons.mpr ⟨hnamed, hmore⟩⟩
      rw [fieldTexts_cons, htext]
    · rintro ⟨more, rfl, htext', hall⟩
      cases more with
      | nil => exact absurd (List.cons.inj htext').1 hclose
      | cons u more =>
        rw [fieldTexts_cons] at htext'
        obtain ⟨hu, hmore⟩ := List.forall_mem_cons.mp hall
        -- What is read off the front is determined by the characters.
        have hsame := hread.symm.trans (readField_eq_ok.mpr ⟨htext', hu⟩)
        rw [Except.ok.injEq, Prod.mk.injEq] at hsame
        obtain ⟨rfl, rfl⟩ := hsame
        exact ⟨more, by simp, rfl, hmore⟩

/-- The text of a result, which may be missing. -/
def resultText : Option FieldType → List Char
  | some result => result.text.toList
  | none => ['V']

theorem readResult_eq_ok {cs rest : List Char} {result : Option FieldType} :
    readResult cs = .ok (result, rest) ↔
      cs = resultText result ++ rest ∧ ∀ t ∈ result, t.IsNamed := by
  unfold readResult
  split
  · rw [Except.ok.injEq, Prod.mk.injEq]
    constructor
    · rintro ⟨rfl, rfl⟩
      exact ⟨rfl, nofun⟩
    · rintro ⟨htext, -⟩
      cases result with
      | none => exact ⟨rfl, (List.cons.inj htext).2⟩
      | some t =>
        obtain ⟨c, tail, hcons, -, hc⟩ := head?_text_field t
        rw [resultText, hcons] at htext
        exact absurd (List.cons.inj htext).1.symm hc
  · next hother =>
    rw [map_eq_ok]
    constructor
    · rintro ⟨t, ht, rfl⟩
      obtain ⟨htext, hnamed⟩ := readField_eq_ok.mp ht
      exact ⟨htext, fun u hu => Option.some.inj hu ▸ hnamed⟩
    · rintro ⟨htext, hnamed⟩
      cases result with
      | none => exact absurd htext (hother _)
      | some t => exact ⟨t, readField_eq_ok.mpr ⟨htext, hnamed t rfl⟩, rfl⟩

theorem toList_text_method (t : MethodType) :
    t.text.toList = '(' :: (fieldTexts t.parameters ++ ')' :: resultText t.result) := by
  rcases t with ⟨parameters, _ | result⟩ <;>
    simp [MethodType.text, fieldTexts, resultText, String.toList_join, List.flatMap_map]

theorem readMethod_eq_ok {cs rest : List Char} {t : MethodType} :
    readMethod cs = .ok (t, rest) ↔ cs = t.text.toList ++ rest ∧ t.IsNamed := by
  rw [toList_text_method]
  constructor
  · intro h
    unfold readMethod at h
    split at h
    · split at h
      · cases h
      · next parameters after hparameters =>
        obtain ⟨more, rfl, rfl, hmore⟩ := readParameters_eq_ok.mp hparameters
        obtain ⟨result, hresult, rfl⟩ := map_eq_ok.mp h
        obtain ⟨rfl, hnamed⟩ := readResult_eq_ok.mp hresult
        exact ⟨by simp, hmore, hnamed⟩
    · cases h
  · rintro ⟨rfl, hnamed⟩
    have hparameters : readParameters []
        (fieldTexts t.parameters ++ ')' :: (resultText t.result ++ rest)) =
          .ok (t.parameters, resultText t.result ++ rest) :=
      readParameters_eq_ok.mpr ⟨t.parameters, rfl, rfl, hnamed.parameters⟩
    rw [List.cons_append, List.append_assoc, List.cons_append, readMethod, hparameters]
    exact map_eq_ok.mpr ⟨t.result, readResult_eq_ok.mpr ⟨rfl, hnamed.result⟩, rfl⟩

theorem parse_eq_ok {α : Type} {read : List Char → Taken α} {text : String} {a : α} :
    parse read text = .ok a ↔ read text.toList = .ok (a, []) := by
  unfold parse
  dsimp only
  split
  · next stop hstop =>
    rw [hstop]
    exact ⟨nofun, nofun⟩
  · next b hread => rw [hread, Except.ok.injEq, Except.ok.injEq, Prod.mk.injEq, and_iff_left rfl]
  · next b rest hne hread =>
    rw [hread]
    refine ⟨nofun, fun h => ?_⟩
    rw [Except.ok.injEq, Prod.mk.injEq] at h
    exact absurd h.2 hne

end Descriptor

/-! ## Whole texts -/

namespace RefType

theorem parse_eq_ok {text : String} {t : RefType} :
    parse text = .ok t ↔ text = t.text ∧ t.IsNamed := by
  rw [parse, Descriptor.parse_eq_ok, Descriptor.readRef_eq_ok, List.append_nil, String.toList_inj]

/-- The text of a class constant refers to the type that has this text. -/
theorem ofConstantText_eq_ok {text : String} {t : RefType} :
    ofConstantText text = .ok t ↔ text = t.constantText ∧ t.IsNamed := by
  unfold ofConstantText
  split
  · next hbracket =>
    rw [parse_eq_ok]
    cases t with
    | object name =>
      -- Neither the descriptor of a class nor a valid name begins with a bracket.
      rw [constantText, isNamed_object]
      constructor
      · rintro ⟨rfl, -⟩
        rw [RefType.text, Descriptor.toList_text_object] at hbracket
        cases hbracket
      · rintro ⟨rfl, hvalid⟩
        cases ClassName.not_isIllegal hvalid '[' (List.mem_of_head? hbracket)
    | array extra element => rfl
  · next hbracket =>
    constructor
    · intro h
      split at h
      · next name hname =>
        cases h
        exact (ClassName.check_eq_ok.mp hname).imp_right isNamed_object.mpr
      · cases h
    · rintro ⟨rfl, hnamed⟩
      cases t with
      | object name => rw [constantText, ClassName.check_eq_ok.mpr ⟨rfl, isNamed_object.mp hnamed⟩]
      | array extra element =>
        have htext := Descriptor.toList_text_array extra element
        exact absurd (congrArg List.head? htext) hbracket

end RefType

theorem FieldType.parse_eq_ok {text : String} {t : FieldType} :
    parse text = .ok t ↔ text = t.text ∧ t.IsNamed := by
  rw [parse, Descriptor.parse_eq_ok, Descriptor.readField_eq_ok, List.append_nil, String.toList_inj]

theorem MethodType.parse_eq_ok {text : String} {t : MethodType} :
    parse text = .ok t ↔ text = t.text ∧ t.IsNamed := by
  rw [parse, Descriptor.parse_eq_ok, Descriptor.readMethod_eq_ok, List.append_nil,
    String.toList_inj]

/-! ## Reading and printing -/

namespace Descriptor

/-- What is read is printed as the text it was read from, and what is printed is read as it was. -/
structure IsInverse {α : Type} (parse : String → Except DescriptorFault α) (print : α → String)
    (IsNamed : α → Prop) : Prop where
  print_of_parse : ∀ text t, parse text = .ok t → print t = text
  isNamed_of_parse : ∀ text t, parse text = .ok t → IsNamed t
  parse_print : ∀ t, IsNamed t → parse (print t) = .ok t

theorem IsInverse.of_parse_eq_ok {α : Type} {parse : String → Except DescriptorFault α}
    {print : α → String} {IsNamed : α → Prop}
    (h : ∀ {text t}, parse text = .ok t ↔ text = print t ∧ IsNamed t) :
    IsInverse parse print IsNamed where
  print_of_parse _ _ hparse := (h.mp hparse).1.symm
  isNamed_of_parse _ _ hparse := (h.mp hparse).2
  parse_print _ hnamed := h.mpr ⟨rfl, hnamed⟩

/-- The descriptors of references, of fields and of methods, and the texts of class constants, are
read and printed as inverses of each other, for all types whose class names are valid. -/
theorem parse_isInverse :
    IsInverse RefType.parse RefType.text RefType.IsNamed ∧
    IsInverse FieldType.parse FieldType.text FieldType.IsNamed ∧
    IsInverse MethodType.parse MethodType.text MethodType.IsNamed ∧
    IsInverse RefType.ofConstantText RefType.constantText RefType.IsNamed ∧
    ∀ name, (RefType.object name).IsNamed ↔
      ∀ segment ∈ name.toList.splitOn '/',
        segment ≠ [] ∧ ∀ c ∈ segment, c ≠ '.' ∧ c ≠ ';' ∧ c ≠ '[' :=
  ⟨.of_parse_eq_ok RefType.parse_eq_ok, .of_parse_eq_ok FieldType.parse_eq_ok,
    .of_parse_eq_ok MethodType.parse_eq_ok, .of_parse_eq_ok RefType.ofConstantText_eq_ok,
    fun _ => RefType.isNamed_object.trans ClassName.isValid_iff⟩

example : MethodType.parse "([[Ljava/lang/String;J)V" =
    .ok ⟨[.ref (.array 1 (.object "java/lang/String")), .base .long], none⟩ := by
  decide +kernel

end Descriptor

end ClassText
