import ClassText.Bytes.Reader
import ClassText.Bytes.Writer
import ClassText.Proofs.Success
import Mathlib.Algebra.Group.Nat.Defs

/-!
# Which bytes a reader takes

By its law, a reader that succeeds takes some bytes off the front, and takes the
same bytes for the same value whatever comes after them. `ByteReader.Takes` is
that relation between bytes and value. The lemmas below describe it for every
way in which readers are made, each as an equivalence: they are used in one
direction to learn what bytes were read, and in the other to show that bytes
which were written are read again.
-/

namespace ClassText

namespace ByteReader

variable {α β : Type} {used : Bytes}

/-- The reader takes these bytes for this value. -/
def Takes (reader : ByteReader α) (used : Bytes) (a : α) : Prop :=
  ∀ rest, reader.run (used ++ rest) = .ok (a, rest)

theorem run_eq_ok_iff {reader : ByteReader α} {bytes rest : Bytes} {a : α} :
    reader.run bytes = .ok (a, rest) ↔ ∃ used, bytes = used ++ rest ∧ reader.Takes used a := by
  constructor
  · exact fun h => reader.law h
  · rintro ⟨used, rfl, h⟩
    exact h rest

theorem takes_iff_run {reader : ByteReader α} {a : α} :
    reader.Takes used a ↔ reader.run used = .ok (a, []) := by
  constructor
  · intro h
    simpa using h []
  · intro h
    obtain ⟨taken, heq, htakes⟩ := run_eq_ok_iff.mp h
    rw [List.append_nil] at heq
    exact heq ▸ htakes

/-- Bytes can begin in one way only with what a reader takes. -/
theorem Takes.unique {reader : ByteReader α} {first first' rest rest' : Bytes} {a a' : α}
    (h : reader.Takes first a) (h' : reader.Takes first' a')
    (heq : first ++ rest = first' ++ rest') : first = first' ∧ a = a' ∧ rest = rest' := by
  have hrun := h rest
  rw [heq, h' rest'] at hrun
  obtain ⟨rfl, rfl⟩ := Prod.mk.inj (Except.ok.inj hrun)
  exact ⟨List.append_cancel_right heq, rfl, rfl⟩

theorem Takes.unique_value {reader : ByteReader α} {a a' : α} (h : reader.Takes used a)
    (h' : reader.Takes used a') : a = a' :=
  (h.unique h' (rfl : used ++ [] = used ++ [])).2.1

/-! ## How readers are put together -/

@[simp] theorem takes_pure {a b : α} :
    (pure a : ByteReader α).Takes used b ↔ used = [] ∧ a = b := by
  rw [takes_iff_run, run_pure, Except.ok.injEq, Prod.mk.injEq]
  exact And.comm

theorem takes_bind {reader : ByteReader α} {next : α → ByteReader β} {b : β} :
    (reader >>= next).Takes used b ↔
      ∃ first second a, used = first ++ second ∧ reader.Takes first a ∧
        (next a).Takes second b := by
  constructor
  · intro h
    have hrun := takes_iff_run.mp h
    rw [run_bind] at hrun
    split at hrun
    · cases hrun
    · next a rest ha =>
      obtain ⟨first, rfl, hfirst⟩ := run_eq_ok_iff.mp ha
      exact ⟨first, rest, a, rfl, hfirst, takes_iff_run.mpr hrun⟩
  · rintro ⟨first, second, a, rfl, hfirst, hsecond⟩ rest
    rw [run_bind, List.append_assoc, hfirst (second ++ rest)]
    exact hsecond rest

/-- Two readers one after the other take the bytes of both. -/
theorem Takes.bind {reader : ByteReader α} {next : α → ByteReader β} {first second : Bytes}
    {a : α} {b : β} (hfirst : reader.Takes first a) (hsecond : (next a).Takes second b) :
    (reader >>= next).Takes (first ++ second) b :=
  takes_bind.mpr ⟨first, second, a, rfl, hfirst, hsecond⟩

/-- What comes last can be made of the value without further bytes. -/
theorem takes_map {reader : ByteReader α} {f : α → β} {b : β} :
    (do return f (← reader)).Takes used b ↔ ∃ a, reader.Takes used a ∧ f a = b := by
  rw [takes_bind]
  constructor
  · rintro ⟨first, second, a, rfl, hfirst, hpure⟩
    obtain ⟨rfl, rfl⟩ := takes_pure.mp hpure
    exact ⟨a, by rwa [List.append_nil], rfl⟩
  · rintro ⟨a, h, rfl⟩
    exact ⟨used, [], a, (List.append_nil _).symm, h, takes_pure.mpr ⟨rfl, rfl⟩⟩

@[simp] theorem takes_fail {e : ClassError} {a : α} : ¬(fail e : ByteReader α).Takes used a := by
  intro h
  cases h []

/-- A reader behind a check that refuses. -/
theorem takes_check {c : Prop} [Decidable c] {e : ClassError} {reader : ByteReader α} {a : α} :
    (if c then fail e else reader).Takes used a ↔ ¬c ∧ reader.Takes used a := by
  split <;> simp_all

theorem takes_ofExcept {result : Except ClassError α} {a : α} :
    (ofExcept result).Takes used a ↔ used = [] ∧ result = .ok a := by
  cases result with
  | error e => exact ⟨fun h => (takes_fail h).elim, fun h => (nomatch h.2)⟩
  | ok b => rw [ofExcept, takes_pure, Except.ok.injEq]

/-- A result that is already there takes no bytes. -/
theorem takes_ofExcept_bind {result : Except ClassError α} {next : α → ByteReader β} {a : α}
    {b : β} (hresult : result = .ok a) (hnext : (next a).Takes used b) :
    (ofExcept result >>= next).Takes used b :=
  takes_bind.mpr ⟨[], used, a, rfl, takes_ofExcept.mpr ⟨rfl, hresult⟩, hnext⟩

/-! ## Bytes and words -/

theorem takes_byte {b : UInt8} : byte.Takes used b ↔ used = [b] := by
  rw [takes_iff_run]
  match used with
  | [] => exact ⟨fun h => (nomatch h), fun h => (nomatch h)⟩
  | c :: rest =>
    constructor
    · intro h
      obtain ⟨rfl, rfl⟩ := Prod.mk.inj (Except.ok.inj h)
      rfl
    · intro h
      cases h
      rfl

theorem takes_take {count : Nat} {bytes : Bytes} :
    (take count).Takes used bytes ↔ used = bytes ∧ bytes.length = count := by
  rw [takes_iff_run]
  constructor
  · intro h
    simp only [take] at h
    split at h
    · next hlen =>
      obtain ⟨rfl, hrest⟩ := Prod.mk.inj (Except.ok.inj h)
      have hle : used.length ≤ count := List.drop_eq_nil_iff.mp hrest
      exact ⟨(List.take_of_length_le hle).symm, hlen⟩
    · cases h
  · rintro ⟨rfl, rfl⟩
    simp [take]

theorem takes_word16 {v : UInt16} : word16.Takes used v ↔ used = Bytes.word16 v := by
  have hv := v.toNat_lt
  simp only [word16, takes_bind, takes_byte, takes_pure]
  constructor
  · rintro ⟨_, _, high, rfl, rfl, _, _, low, rfl, rfl, rfl, rfl⟩
    have hhigh := high.toNat_lt
    have hlow := low.toNat_lt
    have htoNat : (UInt16.ofNat (high.toNat * 256 + low.toNat)).toNat =
        high.toNat * 256 + low.toNat := by
      rw [UInt16.toNat_ofNat']
      omega
    rw [Bytes.word16, htoNat, show (high.toNat * 256 + low.toNat) / 256 = high.toNat by omega,
      show (high.toNat * 256 + low.toNat) % 256 = low.toNat by omega, UInt8.ofNat_toNat,
      UInt8.ofNat_toNat]
    rfl
  · rintro rfl
    refine ⟨[_], [_], _, rfl, rfl, [_], [], _, rfl, rfl, rfl, ?_⟩
    rw [UInt8.toNat_ofNat', UInt8.toNat_ofNat',
      show v.toNat / 256 % 2 ^ 8 * 256 + v.toNat % 256 % 2 ^ 8 = v.toNat by omega,
      UInt16.ofNat_toNat]

theorem takes_word32 {v : UInt32} : word32.Takes used v ↔ used = Bytes.word32 v := by
  have hv := v.toNat_lt
  simp only [word32, takes_bind, takes_word16, takes_pure]
  constructor
  · rintro ⟨_, _, high, rfl, rfl, _, _, low, rfl, rfl, rfl, rfl⟩
    have hhigh := high.toNat_lt
    have hlow := low.toNat_lt
    have htoNat : (UInt32.ofNat (high.toNat * 65536 + low.toNat)).toNat =
        high.toNat * 65536 + low.toNat := by
      rw [UInt32.toNat_ofNat']
      omega
    rw [Bytes.word32, htoNat, show (high.toNat * 65536 + low.toNat) / 65536 = high.toNat by omega,
      show (high.toNat * 65536 + low.toNat) % 65536 = low.toNat by omega, UInt16.ofNat_toNat,
      UInt16.ofNat_toNat, List.append_nil]
  · rintro rfl
    refine ⟨_, _, _, rfl, rfl, _, [], _, (List.append_nil _).symm, rfl, rfl, ?_⟩
    rw [UInt16.toNat_ofNat', UInt16.toNat_ofNat',
      show v.toNat / 65536 % 2 ^ 16 * 65536 + v.toNat % 65536 % 2 ^ 16 = v.toNat by omega,
      UInt32.ofNat_toNat]

theorem takes_word64 {v : UInt64} : word64.Takes used v ↔ used = Bytes.word64 v := by
  have hv := v.toNat_lt
  simp only [word64, takes_bind, takes_word32, takes_pure]
  constructor
  · rintro ⟨_, _, high, rfl, rfl, _, _, low, rfl, rfl, rfl, rfl⟩
    have hhigh := high.toNat_lt
    have hlow := low.toNat_lt
    have htoNat : (UInt64.ofNat (high.toNat * 4294967296 + low.toNat)).toNat =
        high.toNat * 4294967296 + low.toNat := by
      rw [UInt64.toNat_ofNat']
      omega
    rw [Bytes.word64, htoNat,
      show (high.toNat * 4294967296 + low.toNat) / 4294967296 = high.toNat by omega,
      show (high.toNat * 4294967296 + low.toNat) % 4294967296 = low.toNat by omega,
      UInt32.ofNat_toNat, UInt32.ofNat_toNat, List.append_nil]
  · rintro rfl
    refine ⟨_, _, _, rfl, rfl, _, [], _, (List.append_nil _).symm, rfl, rfl, ?_⟩
    rw [UInt32.toNat_ofNat', UInt32.toNat_ofNat',
      show v.toNat / 4294967296 % 2 ^ 32 * 4294967296 + v.toNat % 4294967296 % 2 ^ 32 =
        v.toNat by omega,
      UInt64.ofNat_toNat]

theorem takes_int8 {v : Int8} : int8.Takes used v ↔ used = [v.toUInt8] := by
  rw [int8, takes_map]
  constructor
  · rintro ⟨b, hb, rfl⟩
    rw [takes_byte.mp hb]
    rfl
  · rintro rfl
    exact ⟨_, takes_byte.mpr rfl, rfl⟩

theorem takes_int16 {v : Int16} : int16.Takes used v ↔ used = Bytes.word16 v.toUInt16 := by
  rw [int16, takes_map]
  constructor
  · rintro ⟨b, hb, rfl⟩
    rw [takes_word16.mp hb]
    rfl
  · rintro rfl
    exact ⟨_, takes_word16.mpr rfl, rfl⟩

theorem takes_int32 {v : Int32} : int32.Takes used v ↔ used = Bytes.word32 v.toUInt32 := by
  rw [int32, takes_map]
  constructor
  · rintro ⟨b, hb, rfl⟩
    rw [takes_word32.mp hb]
    rfl
  · rintro rfl
    exact ⟨_, takes_word32.mpr rfl, rfl⟩

theorem takes_int64 {v : Int64} : int64.Takes used v ↔ used = Bytes.word64 v.toUInt64 := by
  rw [int64, takes_map]
  constructor
  · rintro ⟨b, hb, rfl⟩
    rw [takes_word64.mp hb]
    rfl
  · rintro rfl
    exact ⟨_, takes_word64.mpr rfl, rfl⟩

/-! ## Lists -/

theorem timesLoop_eq_ok_iff {item : ByteReader α} :
    ∀ {count : Nat} {read items : List α} {bytes rest : Bytes},
      timesLoop item count read bytes = .ok (items, rest) ↔
        ∃ parts more, List.Forall₂ item.Takes parts more ∧ more.length = count ∧
          bytes = parts.flatten ++ rest ∧ items = read.reverse ++ more
  | 0, read, items, bytes, rest => by
    rw [timesLoop, Except.ok.injEq, Prod.mk.injEq]
    constructor
    · rintro ⟨rfl, rfl⟩
      exact ⟨[], [], .nil, rfl, rfl, (List.append_nil _).symm⟩
    · rintro ⟨parts, more, hall, hlen, rfl, rfl⟩
      obtain rfl := List.eq_nil_of_length_eq_zero hlen
      cases hall
      exact ⟨(List.append_nil _).symm, rfl⟩
  | count + 1, read, items, bytes, rest => by
    rw [timesLoop]
    constructor
    · intro h
      split at h
      · cases h
      · next a middle ha =>
        obtain ⟨part, rfl, hpart⟩ := run_eq_ok_iff.mp ha
        obtain ⟨parts, more, hall, rfl, rfl, rfl⟩ := timesLoop_eq_ok_iff.mp h
        exact ⟨part :: parts, a :: more, .cons hpart hall, rfl, by simp, by simp⟩
    · rintro ⟨parts, more, hall, hlen, rfl, rfl⟩
      cases hall with
      | nil => cases hlen
      | @cons part a parts more hpart hall =>
        rw [List.flatten_cons, List.append_assoc, hpart]
        exact timesLoop_eq_ok_iff.mpr
          ⟨parts, more, hall, Nat.succ.inj hlen, rfl, by simp⟩

theorem takes_times {item : ByteReader α} {count : Nat} {items : List α} :
    (times count item).Takes used items ↔
      ∃ parts, List.Forall₂ item.Takes parts items ∧ items.length = count ∧
        used = parts.flatten := by
  rw [takes_iff_run, times, timesLoop_eq_ok_iff]
  constructor
  · rintro ⟨parts, more, hall, hlen, rfl, rfl⟩
    exact ⟨parts, hall, hlen, List.append_nil _⟩
  · rintro ⟨parts, hall, hlen, rfl⟩
    exact ⟨parts, items, hall, hlen, (List.append_nil _).symm, rfl⟩

theorem takes_counted {item : ByteReader α} {items : List α} :
    (counted item).Takes used items ↔
      ∃ parts, List.Forall₂ item.Takes parts items ∧ items.length ≤ 65535 ∧
        used = Bytes.word16 (.ofNat items.length) ++ parts.flatten := by
  rw [counted, takes_bind]
  constructor
  · rintro ⟨_, _, count, rfl, hcount, htimes⟩
    obtain ⟨parts, hall, hlen, rfl⟩ := takes_times.mp htimes
    have hlt := count.toNat_lt
    refine ⟨parts, hall, by omega, ?_⟩
    rw [takes_word16.mp hcount, hlen, UInt16.ofNat_toNat]
  · rintro ⟨parts, hall, hle, rfl⟩
    refine ⟨_, _, _, rfl, takes_word16.mpr rfl, takes_times.mpr ⟨parts, hall, ?_, rfl⟩⟩
    rw [UInt16.toNat_ofNat']
    omega

end ByteReader

/-! ## Lists that are written -/

namespace Written

variable {α : Type} {write : α → Written} {items : List α} {bytes : Bytes}

theorem concat_eq_ok_iff :
    concat write items = .ok bytes ↔
      ∃ parts, List.Forall₂ (fun a part => write a = .ok part) items parts ∧
        bytes = parts.flatten := by
  rw [concat, Success.bind_eq_ok]
  constructor
  · rintro ⟨parts, hparts, h⟩
    cases h
    exact ⟨parts, Success.mapM_eq_ok.mp hparts, rfl⟩
  · rintro ⟨parts, hparts, rfl⟩
    exact ⟨parts, Success.mapM_eq_ok.mpr hparts, rfl⟩

theorem truncated_eq_ok_iff :
    truncated write items = .ok bytes ↔
      ∃ parts, List.Forall₂ (fun a part => write a = .ok part) items parts ∧
        bytes = Bytes.word16 (.ofNat items.length) ++ parts.flatten := by
  rw [truncated, Success.bind_eq_ok]
  constructor
  · rintro ⟨body, hbody, h⟩
    cases h
    obtain ⟨parts, hparts, rfl⟩ := concat_eq_ok_iff.mp hbody
    exact ⟨parts, hparts, rfl⟩
  · rintro ⟨parts, hparts, rfl⟩
    exact ⟨_, concat_eq_ok_iff.mpr ⟨parts, hparts, rfl⟩, rfl⟩

theorem counted_eq_ok_iff :
    counted write items = .ok bytes ↔ items.length ≤ 65535 ∧
      ∃ parts, List.Forall₂ (fun a part => write a = .ok part) items parts ∧
        bytes = Bytes.word16 (.ofNat items.length) ++ parts.flatten := by
  rw [← truncated_eq_ok_iff]
  unfold counted
  constructor
  · intro h
    obtain ⟨hle, h⟩ := Success.check_eq_ok.mp h
    exact ⟨Nat.le_of_not_lt hle, h⟩
  · rintro ⟨hle, h⟩
    exact Success.check_eq_ok.mpr ⟨Nat.not_lt.mpr hle, h⟩

/-- Each item of a list that was written can be written. -/
theorem write_of_counted (h : counted write items = .ok bytes) {a : α} (ha : a ∈ items) :
    ∃ part, write a = .ok part := by
  obtain ⟨-, parts, hparts, -⟩ := counted_eq_ok_iff.mp h
  exact Success.exists_of_mem_right hparts.flip a ha

end Written

/-- A list that was written is read again, if its items are. -/
theorem ByteReader.takes_counted_of_parts {α β : Type} {write : α → Written}
    {item : ByteReader β} {reread : α → β} {items : List α} {parts : List Bytes}
    (hparts : List.Forall₂ (fun a part => write a = .ok part) items parts)
    (hle : items.length ≤ 65535)
    (hitem : ∀ a ∈ items, ∀ part ∈ parts, write a = .ok part → item.Takes part (reread a)) :
    (counted item).Takes (Bytes.word16 (.ofNat items.length) ++ parts.flatten)
      (items.map reread) := by
  refine takes_counted.mpr ⟨parts, ?_, by rwa [List.length_map], by rw [List.length_map]⟩
  induction hparts with
  | nil => exact .nil
  | @cons a part items parts hwrite _ ih =>
    refine .cons (hitem a List.mem_cons_self part List.mem_cons_self hwrite)
      (ih (Nat.le_of_succ_le hle) fun b hb other hother => ?_)
    exact hitem b (List.mem_cons_of_mem _ hb) other (List.mem_cons_of_mem _ hother)

end ClassText
