import ClassText.Proofs.ConstantPool.Store

/-!
# Texts that a pool takes in

A text stands in a pool once it was interned, and a pool that can be written
can still be written then: a text is let in only if the bytes that spell it fit
the sixteen bits of their length. What was counted before is what is written,
so that the length in front of the bytes is theirs (`ModifiedUtf8.encode_exact`).
-/

namespace ClassText

open Bytes

namespace ConstantPool

variable {pool grown : ConstantPool} {c : Constant} {i : PoolIndex}

theorem entries_push (h : pool.push c = .ok (i, grown)) :
    grown.entries = pool.entries ++ [(pool.count, c)] := by
  show placed grown.slots.toList 0 = placed pool.slots.toList 0 ++ _
  rw [(push_eq_ok h).2, placed_append, placed_slotsOf, Nat.zero_add, ← count_eq_length]

/-- A constant that is pushed is written behind the others. -/
theorem write_push (h : pool.push c = .ok (i, grown)) {body part : Bytes}
    (hpool : pool.write = .ok (word16 (.ofNat pool.count) ++ body)) (hpart : c.write = .ok part) :
    grown.write = .ok (word16 (.ofNat grown.count) ++ (body ++ part)) := by
  obtain ⟨body', hbody, heq⟩ := Success.bind_eq_ok.mp hpool
  obtain rfl : body' = body := List.append_cancel_left (Except.ok.inj heq)
  obtain ⟨parts, hparts, rfl⟩ := Written.concat_eq_ok_iff.mp hbody
  refine Success.bind_eq_ok.mpr ⟨_, Written.concat_eq_ok_iff.mpr ⟨parts ++ [part], ?_, ?_⟩, rfl⟩
  · rw [entries_push h]
    exact List.rel_append hparts (.cons hpart .nil)
  · simp

/-- A text that is new is pushed, and it is short enough. -/
theorem push_of_internText {text : String}
    (h : PoolChange.internText text pool = (.ok i, grown)) (hnew : ∀ j, pool.text? j ≠ some text) :
    ModifiedUtf8.encodedLength text ≤ 65535 ∧ pool.push (.utf8 text) = .ok (i, grown) := by
  have habsent : pool.find? (.utf8 text) = none :=
    find?_eq_none_iff.mpr fun j hj => hnew j (text?_eq_some_iff.mpr hj)
  have hstep := PoolCall.run_ofStep_eq_ok.mp h
  rw [habsent] at hstep
  obtain ⟨hshort, hpush⟩ := Success.check_eq_ok.mp hstep
  exact ⟨Nat.not_lt.mp hshort, hpush⟩

end ConstantPool

namespace ModifiedUtf8

/-- The bytes of a text, whatever it is: it is decoded from them, they are as many as were counted,
none of them is zero or begins a group of four, and no other text has them. If the text is new to a
pool and gets an index in it, it stands there, its bytes fit the sixteen bits of a length, and it
is written behind the constants that were there before. -/
theorem encode_exact (text : String) :
    decode? (encode text) = some text ∧
    encodedLength text = (encode text).length ∧
    (∀ b ∈ encode text, b ≠ 0 ∧ b.toNat < 0xF0) ∧
    (∀ other, encode other = encode text → other = text) ∧
    ∀ (pool grown : ConstantPool) (i : PoolIndex),
      PoolChange.internText text pool = (.ok i, grown) → (∀ j, pool.text? j ≠ some text) →
        grown.text? i = some text ∧
        (encode text).length ≤ 65535 ∧
        (Constant.utf8 text).write =
          .ok (1 :: (word16 (.ofNat (encode text).length) ++ encode text)) ∧
        ∀ body, pool.write = .ok (word16 (.ofNat pool.count) ++ body) →
          grown.write = .ok (word16 (.ofNat grown.count) ++
            (body ++ 1 :: (word16 (.ofNat (encode text).length) ++ encode text))) := by
  have hdecode := decode?_encode text
  refine ⟨hdecode, encodedLength_eq text, ne_zero_of_mem_decode? hdecode,
    fun other h => encode_injective h, fun pool grown i hintern hnew => ?_⟩
  obtain ⟨hshort, hpush⟩ := ConstantPool.push_of_internText hintern hnew
  rw [encodedLength_eq] at hshort
  have hwrite := Constant.write_utf8 hshort
  exact ⟨ConstantPool.text?_eq_some_iff.mpr (ConstantPool.get?_push hpush), hshort, hwrite,
    fun body hbody => ConstantPool.write_push hpush hbody hwrite⟩

/-- NUL and a character beyond the basic plane, in a pool that was empty. -/
theorem encode_exact_supplementary :
    PoolChange.internText "\u0000😀" .empty = (.ok 1, ConstantPool.empty.add (.utf8 "\u0000😀")) ∧
    ((ConstantPool.empty.add (.utf8 "\u0000😀")).write = .ok
      [0, 2, 1, 0, 8, 0xC0, 0x80, 0xED, 0xA0, 0xBD, 0xED, 0xB8, 0x80]) := by
  have hintern : PoolChange.internText "\u0000😀" .empty =
      (.ok 1, ConstantPool.empty.add (.utf8 "\u0000😀")) :=
    PoolCall.run_ofStep_eq_ok.mpr (Success.toOption_eq_some.mp (by decide +kernel))
  have hbytes : encode "\u0000😀" = [0xC0, 0x80, 0xED, 0xA0, 0xBD, 0xED, 0xB8, 0x80] := by
    decide +kernel
  obtain ⟨-, -, -, -, hpool⟩ := encode_exact "\u0000😀"
  obtain ⟨-, -, -, hwrite⟩ := hpool _ _ _ hintern fun j hj => by
    have hnone : ConstantPool.empty.find? (.utf8 "\u0000😀") = none := by decide +kernel
    exact ConstantPool.find?_eq_none_iff.mp hnone j (ConstantPool.text?_eq_some_iff.mp hj)
  refine ⟨hintern, (hwrite [] rfl).trans ?_⟩
  rw [hbytes]
  rfl

end ModifiedUtf8

end ClassText
