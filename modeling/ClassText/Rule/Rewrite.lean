import ClassText.Rule

/-!
# Rewriting a text

A rule splits a text at the occurrences of its key, from left to right and
without overlap, and puts a replacement into every gap. Each rule works on the
text that the rules before it left.
-/

namespace ClassText

structure Replacement where
  key : String
  text : String
deriving DecidableEq, Repr

/-- A text after all rules, and what was replaced on the way. -/
structure Rewrite where
  text : String
  replacements : List Replacement
deriving DecidableEq, Repr

namespace Rewrite

/-- The pieces between the occurrences of a key that is not empty. `skip` characters belong to
an occurrence, and `piece` holds the current piece in reverse. -/
def splitLoop (key : List Char) : Nat → List Char → List Char → List (List Char)
  | _, piece, [] => [piece.reverse]
  | skip + 1, piece, _ :: rest => splitLoop key skip piece rest
  | 0, piece, c :: rest =>
    if key <+: c :: rest then piece.reverse :: splitLoop key (key.length - 1) [] rest
    else splitLoop key 0 (c :: piece) rest

/-- The pieces of a text between the occurrences of a key. -/
def split (key text : List Char) : List (List Char) :=
  splitLoop key 0 [] text

/-- The first piece, and the others each behind a replacement. -/
def weave : List (List Char) → List String → String
  | [], _ => ""
  | piece :: pieces, replacements =>
    String.ofList piece ++
      String.join (List.zipWith (fun r p => r ++ String.ofList p) replacements pieces)

def apply (rule : Rule) (current : Rewrite) : Drawing Rewrite := do
  let pieces := split rule.key.toList current.text.toList
  let texts ← (List.replicate (pieces.length - 1) ()).mapM fun _ =>
    rule.policy.replacement rule.key
  return ⟨weave pieces texts, current.replacements ++ texts.map (⟨rule.key, ·⟩)⟩

end Rewrite

def Rules.rewrite (rules : Rules) (text : String) : Drawing Rewrite :=
  rules.toList.foldlM (fun current rule => Rewrite.apply rule current) ⟨text, []⟩

end ClassText
