import ClassText.Rule.Rewrite

/-!
# Where a key occurs

A text is split at the first occurrence of a key, then what is behind it is
split at the first occurrence there, and so on, until there is none left
(`Rewrite.IsSplit`). Occurrences do not overlap, since each one is looked for behind
the one before; what a later one would share with an earlier one is not looked at
again.

The loop goes through the text one character at a time. It finds these pieces, and
there are no others (`split_eq_iff`). Putting the key back between them gives the
text again (`IsSplit.weave_key`).
-/

namespace ClassText.Rewrite

variable {key text before after : List Char} {pieces : List (List Char)}

/-- The key stands in the text between these two, and nowhere earlier. -/
structure IsFirst (key text before after : List Char) : Prop where
  eq : text = before ++ key ++ after
  first : ∀ before' after', text = before' ++ key ++ after' → before.length ≤ before'.length

/-- The pieces of the text between the occurrences of the key from left to right, each the first
behind the one before. -/
inductive IsSplit (key : List Char) : List Char → List (List Char) → Prop where
  | whole {text : List Char} (h : ¬key <:+: text) : IsSplit key text [text]
  | cut {text before after : List Char} {pieces : List (List Char)}
    (h : IsFirst key text before after) (hrest : IsSplit key after pieces) :
    IsSplit key text (before :: pieces)

/-! ## There is one way to split a text -/

theorem IsFirst.isInfix (h : IsFirst key text before after) : key <:+: text :=
  ⟨before, after, h.eq.symm⟩

theorem IsFirst.unique {before' after' : List Char} (h : IsFirst key text before after)
    (h' : IsFirst key text before' after') : before = before' ∧ after = after' := by
  have hlen : before.length = before'.length :=
    Nat.le_antisymm (h.first _ _ h'.eq) (h'.first _ _ h.eq)
  have heq := h.eq.symm.trans h'.eq
  rw [List.append_assoc, List.append_assoc] at heq
  obtain ⟨rfl, hrest⟩ := List.append_inj heq hlen
  exact ⟨rfl, List.append_cancel_left hrest⟩

theorem IsSplit.unique (h : IsSplit key text pieces) :
    ∀ {pieces' : List (List Char)}, IsSplit key text pieces' → pieces = pieces' := by
  induction h with
  | whole hnone =>
    rintro _ (_ | ⟨hfirst, _⟩)
    · rfl
    · exact (hnone hfirst.isInfix).elim
  | cut hfirst _ ih =>
    rintro _ (hnone | ⟨hfirst', hrest'⟩)
    · exact (hnone hfirst.isInfix).elim
    · obtain ⟨rfl, rfl⟩ := hfirst.unique hfirst'
      rw [ih hrest']

theorem IsSplit.ne_nil (h : IsSplit key text pieces) : pieces ≠ [] := by
  cases h <;> exact List.cons_ne_nil _ _

/-! ## The loop finds it -/

/-- Characters that belong to an occurrence are passed over. -/
theorem splitLoop_skip (key piece : List Char) : ∀ (skip : Nat) (text : List Char),
    splitLoop key skip piece text = splitLoop key 0 piece (text.drop skip)
  | 0, _ => rfl
  | skip + 1, [] => by rw [splitLoop, List.drop_nil, splitLoop]
  | skip + 1, _ :: rest => by
    rw [splitLoop, List.drop_succ_cons, splitLoop_skip key piece skip rest]

/-- What was read of the current piece comes in front of the first piece of the rest. -/
theorem splitLoop_eq_modifyHead (key : List Char) : ∀ (piece text : List Char),
    splitLoop key 0 piece text = (split key text).modifyHead (piece.reverse ++ ·)
  | piece, [] => by simp [split, splitLoop]
  | piece, c :: rest => by
    rw [split, splitLoop, splitLoop]
    split
    · simp
    · rw [splitLoop_eq_modifyHead key (c :: piece) rest, splitLoop_eq_modifyHead key [c] rest,
        List.modifyHead_modifyHead]
      simp [Function.comp_def]

/-- A text begins with the key, or the first piece with its first character. -/
theorem split_cons (hkey : key ≠ []) (c : Char) (rest : List Char) :
    split key (c :: rest) =
      if key <+: c :: rest then [] :: split key ((c :: rest).drop key.length)
      else (split key rest).modifyHead (c :: ·) := by
  rw [split, splitLoop]
  split
  · obtain ⟨k, ks, rfl⟩ := List.exists_cons_of_ne_nil hkey
    rw [splitLoop_skip]
    rfl
  · exact splitLoop_eq_modifyHead key [c] rest

/-- If the key does not stand at the beginning, its first occurrence is that behind the first
character. -/
theorem IsFirst.cons {c : Char} (h : IsFirst key text before after) (hc : ¬key <+: c :: text) :
    IsFirst key (c :: text) (c :: before) after where
  eq := congrArg (c :: ·) h.eq
  first before' after' heq := by
    cases before' with
    | nil => exact (hc ⟨after', heq.symm⟩).elim
    | cons d before' => exact Nat.succ_le_succ (h.first before' after' (List.cons.inj heq).2)

theorem isSplit_split (hkey : key ≠ []) (text : List Char) : IsSplit key text (split key text) := by
  match text with
  | [] => exact .whole fun h => hkey (List.infix_nil.mp h)
  | c :: rest =>
    rw [split_cons hkey]
    split
    · next hprefix =>
      refine .cut ⟨?_, fun _ _ _ => Nat.zero_le _⟩ (isSplit_split hkey _)
      exact (List.prefix_iff_eq_append.mp hprefix).symm
    · next hprefix =>
      generalize hpieces : split key rest = pieces
      have hrest : IsSplit key rest pieces := hpieces ▸ isSplit_split hkey rest
      cases hrest with
      | whole hnone =>
        exact .whole fun h => (List.infix_cons_iff.mp h).elim hprefix hnone
      | cut hfirst hmore => exact .cut (hfirst.cons hprefix) hmore
termination_by text.length
decreasing_by
  · exact Nat.lt_succ_self _
  · have := List.length_pos_iff.mpr hkey
    rw [List.length_drop, List.length_cons]
    omega

/-- The loop gives the pieces between the occurrences of a key, and nothing else does. -/
theorem split_eq_iff (hkey : key ≠ []) : split key text = pieces ↔ IsSplit key text pieces :=
  ⟨fun h => h ▸ isSplit_split hkey text, (isSplit_split hkey text).unique⟩

/-! ## Putting the pieces together -/

theorem weave_singleton (piece : List Char) (texts : List String) :
    weave [piece] texts = String.ofList piece := by
  simp [weave, String.join]

theorem weave_cons_cons (piece next : List Char) (pieces : List (List Char)) (text : String)
    (texts : List String) : weave (piece :: next :: pieces) (text :: texts) =
      String.ofList piece ++ text ++ weave (next :: pieces) texts := by
  simp [weave, String.join_cons, String.append_assoc]

/-- With the key in every gap, the pieces are the text again. -/
theorem IsSplit.weave_key (h : IsSplit key text pieces) :
    weave pieces (List.replicate (pieces.length - 1) (String.ofList key)) = String.ofList text := by
  induction h with
  | whole _ => exact weave_singleton _ _
  | @cut text before after pieces hfirst hrest ih =>
    obtain ⟨next, more, rfl⟩ := List.exists_cons_of_ne_nil hrest.ne_nil
    rw [List.length_cons, Nat.add_sub_cancel, List.length_cons, List.replicate_succ,
      weave_cons_cons, hfirst.eq]
    rw [List.length_cons, Nat.add_sub_cancel] at ih
    rw [ih, String.ofList_append, String.ofList_append]

end ClassText.Rewrite
