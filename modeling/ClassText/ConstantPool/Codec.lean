import ClassText.Constant.Codec
import ClassText.ConstantPool

/-!
# Constant pools as bytes

A pool is written as its count and its constants in order. Constants are read
until the count is reached; the last one must not go beyond it.
-/

namespace ClassText.ConstantPool

def write (pool : ConstantPool) : Written := do
  let body ← Written.concat (fun entry => entry.2.write) pool.entries
  return Bytes.word16 (.ofNat pool.count) ++ body

/-- Constants up to a count. Every constant takes at least one index, so `fuel` constants are
enough for as many indices. -/
def readLoop (count : Nat) : Nat → ConstantPool → ByteReader ConstantPool
  | 0, pool => return pool
  | fuel + 1, pool =>
    if pool.count < count then do
      let c ← Constant.read
      if count < pool.count + c.width then .fail (.malformed .poolOverrun)
      else
        let (_, pool) ← .ofExcept (pool.push c)
        readLoop count fuel pool
    else return pool

/-- A pool. A count of zero stands for an empty pool. -/
def read : ByteReader ConstantPool := do
  let count ← .word16
  readLoop count.toNat count.toNat empty

end ClassText.ConstantPool
