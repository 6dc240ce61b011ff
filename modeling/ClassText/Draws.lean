/-!
# Random draws

A source of random words of sixty-four bits, taken one after the other.
-/

namespace ClassText

structure Draws where
  word : Nat → UInt64
  drawn : Nat

/-- A result that depends on random words, and what is left of them. -/
abbrev Drawing (α : Type) := StateM Draws α

namespace Draws

/-- The source that goes around in a list. -/
def cycle (words : List UInt64) : Draws :=
  let words := words.toArray
  ⟨fun i => words.getD (i % words.size) 0, 0⟩

/-- One position of a sequence that looks random: an additive sequence whose bits are mixed. -/
def mixed (seed : UInt64) (position : Nat) : UInt64 :=
  let x := seed + 0x9e3779b97f4a7c15 * (.ofNat position + 1)
  let x := (x ^^^ (x >>> 30)) * 0xbf58476d1ce4e5b9
  let x := (x ^^^ (x >>> 27)) * 0x94d049bb133111eb
  x ^^^ (x >>> 31)

def ofSeed (seed : UInt64) : Draws := ⟨mixed seed, 0⟩

def draw : Drawing UInt64 := do
  let draws ← get
  set { draws with drawn := draws.drawn + 1 }
  return draws.word draws.drawn

end Draws

end ClassText
