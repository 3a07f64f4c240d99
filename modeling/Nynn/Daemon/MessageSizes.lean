import Nynn.Common.Text
import Mathlib.Algebra.Order.Ring.Int

/-!
# The sizes of a message

`infuse` makes a segment for a message, with a header of 64 bytes: the size of the whole, the host
and the message id. It takes the host, the id and a body, or one buffer that has them one after the
other. For a buffer the size of the body goes through an `int` of 32 bits, which cuts it and extends
its sign, and the size of the segment is a sum of 64 bits that overflows. A size that overflows is
small, and the test against `shmmax` does not see it.

Source: `infuse` and `effuse` in `nynn.cpp`, `nynn_msg_t` in `nynn.h`.

## Main definitions

* `Nynn.Tap.infuse`, `Nynn.Tap.infuseBuffer`: the calls, up to what they write into the segment.
* `Nynn.Filling.Holds`: the segment is as long as the message, and `shmmax` admits it.

## Main results

* `Nynn.infuse_sizes`: the sizes for which a call that writes a message makes room for it.
-/

namespace Nynn

/-! ### The calls -/

/-- `nynn_tap_t`, with what the system answers: whether a segment of a given size is made and
attached, and whether the token is sent. -/
structure Tap where
  shmmax : UInt64
  shmat : UInt64 → Bool
  sends : Bool

/-- The host and the message id as the assertions of `infuse` have them. -/
structure MsgNames where
  host : Text
  msgid : Text
  host_lt : host.length < 16
  msgid_lt : msgid.length < 40

/-- The size of a segment, the field `msghdr.msgsize` in it, and the number of bytes that are copied
to `msgbdy`. -/
structure Filling where
  shmsize : UInt64
  msgsize : UInt64
  copied : UInt64
  deriving DecidableEq, Repr

/-- `infuse` of a host, a message id and a body: its value, and what it writes. -/
def Tap.infuse (tap : Tap) (msgbdysize : UInt64) : ℤ × Option Filling :=
  let shmsize := 8 + 16 + 40 + msgbdysize
  if tap.shmmax < shmsize then (-1, none)
  else if !tap.shmat shmsize then (-1, none)
  else (if tap.sends then 0 else -1, some ⟨shmsize, shmsize, msgbdysize⟩)

/-- `infuse` of a buffer. The size of the body is an `int`. -/
def Tap.infuseBuffer (tap : Tap) (msgsize : UInt64) : ℤ × Option Filling :=
  let msgbdysize : Int32 := (msgsize - 16 - 40).toInt64.toInt32
  tap.infuse msgbdysize.toInt64.toUInt64

/-- The size of the body as `effuse` finds it. -/
def Filling.effused (f : Filling) : UInt64 := f.msgsize - 64

namespace Filling

/-- The offset and the length of everything that is written into the segment. -/
def writes (f : Filling) (names : MsgNames) : List (ℕ × ℕ) :=
  [(0, 8), (8, names.host.length + 1), (24, names.msgid.length + 1), (64, f.copied.toNat)]

/-- The segment holds a message with a body of `n` bytes, nothing is written beyond its end, and
`shmmax` admits it. -/
structure Holds (f : Filling) (shmmax : UInt64) (n : ℕ) : Prop where
  copied : f.copied.toNat = n
  shmsize : f.shmsize.toNat = 8 + 16 + 40 + n
  msgsize : f.msgsize.toNat = 8 + 16 + 40 + n
  le_shmmax : f.shmsize.toNat ≤ shmmax.toNat
  inside : ∀ names, ∀ w ∈ f.writes names, w.1 + w.2 ≤ f.shmsize.toNat

end Filling

/-- A call returns `-1` and copies nothing of the body. -/
def Refused (r : ℤ × Option Filling) : Prop := r = (-1, none)

/-- The call writes a segment that holds a message with a body of `n` bytes. -/
def Writes (r : ℤ × Option Filling) (shmmax : UInt64) (n : ℕ) : Prop :=
  ∃ f, r.2 = some f ∧ f.Holds shmmax n

namespace Tap

variable (tap : Tap)

/-- There is no segment of this size: it is too large, or the system does not make it. -/
def Refuses (size : ℕ) : Prop := tap.shmmax.toNat < size ∨ tap.shmat (UInt64.ofNat size) = false

/-- The sum of the sizes of the header and of the body does not overflow, or the segment that is
made for the rest of the sum is refused. -/
def BodyFits (n : ℕ) : Prop := n < 2 ^ 64 - 64 ∨ tap.Refuses (n - (2 ^ 64 - 64))

/-- The buffer has a header and the sum does not overflow, and the size of the body is an `int`, or
becomes one and has its value again when the sign is extended; or the segment is refused. -/
def BufferFits (n : ℕ) : Prop :=
  (56 ≤ n ∧ n < 2 ^ 64 - 8 ∧ (n < 56 + 2 ^ 31 ∨ 56 + 2 ^ 64 - 2 ^ 31 ≤ n)) ∨
    tap.Refuses ((Int.bmod (n - 56) (2 ^ 32) + 64) % 2 ^ 64).toNat

/-! ### The conversions -/

/-- A size that becomes an `int` and a `size_t` again. -/
private theorem toNat_toInt32 (x : UInt64) :
    (x.toInt64.toInt32.toInt64.toUInt64.toNat : ℤ) = Int.bmod x.toNat (2 ^ 32) % 2 ^ 64 := by
  have hunsigned (y : Int64) : (y.toUInt64.toNat : ℤ) = y.toInt % 2 ^ 64 := by
    have hy : y.toInt = Int.bmod y.toUInt64.toNat (2 ^ 64) := BitVec.toInt_eq_toNat_bmod _
    have hlt := y.toUInt64.toNat_lt
    rw [hy]
    exact (Int.emod_eq_of_lt (by omega) (by exact_mod_cast hlt)).symm.trans Int.bmod_emod.symm
  have hsigned : x.toInt64.toInt = Int.bmod x.toNat (2 ^ 64) := BitVec.toInt_eq_toNat_bmod _
  rw [hunsigned, Int32.toInt_toInt64, Int64.toInt_toInt32, hsigned,
    Int.bmod_bmod_of_dvd (by decide)]

/-- The size of the body that `infuse` of a buffer finds. -/
private theorem toNat_body (msgsize : UInt64) :
    ((msgsize - 16 - 40).toInt64.toInt32.toInt64.toUInt64.toNat : ℤ) =
      Int.bmod (msgsize.toNat - 56) (2 ^ 32) % 2 ^ 64 := by
  have hsub : ((msgsize - 16 - 40).toNat : ℤ) = (msgsize.toNat - 56) % 2 ^ 64 := by
    rw [UInt64.toNat_sub, UInt64.toNat_sub]
    simp only [UInt64.reduceToNat]
    omega
  rw [toNat_toInt32, hsub]
  simp only [Int.bmod_def]
  omega

/-! ### The segment -/

variable {tap} {msgbdysize : UInt64}

/-- The sum of the sizes. -/
private theorem toNat_sum : (8 + 16 + 40 + msgbdysize).toNat = (64 + msgbdysize.toNat) % 2 ^ 64 :=
  UInt64.toNat_add ..

private theorem refuses_sum_iff : tap.Refuses ((64 + msgbdysize.toNat) % 2 ^ 64) ↔
    tap.shmmax < 8 + 16 + 40 + msgbdysize ∨ tap.shmat (8 + 16 + 40 + msgbdysize) = false := by
  rw [Refuses, ← toNat_sum, UInt64.ofNat_toNat, UInt64.lt_iff_toNat_lt]

private theorem infuse_of_not_refuses (h : ¬tap.Refuses ((64 + msgbdysize.toNat) % 2 ^ 64)) :
    (tap.infuse msgbdysize).2 =
      some ⟨8 + 16 + 40 + msgbdysize, 8 + 16 + 40 + msgbdysize, msgbdysize⟩ := by
  rw [refuses_sum_iff, not_or, Bool.not_eq_false] at h
  obtain ⟨hmax, hshm⟩ := h
  rw [infuse, if_neg hmax, hshm, Bool.not_true, if_neg Bool.false_ne_true]

private theorem refused_iff :
    Refused (tap.infuse msgbdysize) ↔ tap.Refuses ((64 + msgbdysize.toNat) % 2 ^ 64) := by
  constructor
  · intro h
    by_contra hnot
    have hnone : (tap.infuse msgbdysize).2 = none := congrArg Prod.snd h
    exact Option.some_ne_none _ ((infuse_of_not_refuses hnot).symm.trans hnone)
  · intro h
    rw [Refused, infuse]
    rcases refuses_sum_iff.mp h with hmax | hshm
    · rw [if_pos hmax]
    · rw [hshm, Bool.not_false, if_pos rfl, ite_self]

private theorem not_refuses {f : Filling} (h : (tap.infuse msgbdysize).2 = some f) :
    ¬tap.Refuses ((64 + msgbdysize.toNat) % 2 ^ 64) := by
  intro hrefuses
  have hnone : (tap.infuse msgbdysize).2 = none := congrArg Prod.snd (refused_iff.mpr hrefuses)
  exact Option.some_ne_none f (h.symm.trans hnone)

/-- A segment of the size of the sum is filled, and the message fits if the sum is one. -/
private theorem writes_iff {n : ℕ} : Writes (tap.infuse msgbdysize) tap.shmmax n ↔
    ¬tap.Refuses ((64 + msgbdysize.toNat) % 2 ^ 64) ∧
      msgbdysize.toNat = n ∧ 64 + msgbdysize.toNat < 2 ^ 64 := by
  constructor
  · rintro ⟨f, hf, hcopied, hsize, -, -, -⟩
    have hnot := not_refuses hf
    obtain rfl := Option.some.inj ((infuse_of_not_refuses hnot).symm.trans hf)
    have hmod := Nat.mod_lt (64 + msgbdysize.toNat) (Nat.two_pow_pos 64)
    have hcopied : msgbdysize.toNat = n := hcopied
    rw [toNat_sum] at hsize
    exact ⟨hnot, hcopied, by omega⟩
  · rintro ⟨hnot, rfl, hlt⟩
    have hsum := toNat_sum.trans (Nat.mod_eq_of_lt hlt)
    refine ⟨_, infuse_of_not_refuses hnot, rfl, hsum, hsum, ?_, fun names w hw => ?_⟩
    · exact UInt64.not_lt.mp fun hmax => hnot (refuses_sum_iff.mpr (Or.inl hmax))
    · have hhost := names.host_lt
      have hmsgid := names.msgid_lt
      simp only [Filling.writes, List.mem_cons, List.not_mem_nil, or_false] at hw
      dsimp only
      rcases hw with rfl | rfl | rfl | rfl <;> dsimp only <;> omega

/-- `effuse` takes as many bytes as were copied, also where the sum overflows. -/
theorem effused_eq {f : Filling} (h : (tap.infuse msgbdysize).2 = some f) :
    f.effused = msgbdysize := by
  obtain rfl := Option.some.inj ((infuse_of_not_refuses (not_refuses h)).symm.trans h)
  have hcancel := UInt64.add_sub_cancel msgbdysize 64
  rw [UInt64.add_comm] at hcancel
  exact hcancel

end Tap

/-- **The sizes of `infuse`.** A call that writes a message makes a segment of exactly its size if
and only if the sizes are representable on the way, or there is no segment of the size that is left
of them. -/
theorem infuse_sizes (tap : Tap) :
    (∀ msgbdysize, Refused (tap.infuse msgbdysize) ∨
        Writes (tap.infuse msgbdysize) tap.shmmax msgbdysize.toNat ↔
      tap.BodyFits msgbdysize.toNat) ∧
    ∀ msgsize, Refused (tap.infuseBuffer msgsize) ∨
        56 ≤ msgsize.toNat ∧ Writes (tap.infuseBuffer msgsize) tap.shmmax (msgsize.toNat - 56) ↔
      tap.BufferFits msgsize.toNat := by
  refine ⟨fun msgbdysize => ?_, fun msgsize => ?_⟩
  · rw [Tap.refused_iff, Tap.writes_iff, or_and_left, and_iff_right (em _), Tap.BodyFits, or_comm]
    have hlt := msgbdysize.toNat_lt
    by_cases hsum : 64 + msgbdysize.toNat < 2 ^ 64
    · have hsmall : msgbdysize.toNat < 2 ^ 64 - 64 := by omega
      exact iff_of_true (Or.inl ⟨rfl, hsum⟩) (Or.inl hsmall)
    · have hlarge : ¬msgbdysize.toNat < 2 ^ 64 - 64 := by omega
      have hmod : (64 + msgbdysize.toNat) % 2 ^ 64 = msgbdysize.toNat - (2 ^ 64 - 64) := by omega
      rw [hmod, or_iff_right (fun h => hsum h.2), or_iff_right hlarge]
  · have hbody := Tap.toNat_body msgsize
    rw [Tap.infuseBuffer, Tap.refused_iff, Tap.writes_iff, and_left_comm, or_and_left,
      and_iff_right (em _), Tap.BufferFits, or_comm]
    generalize (msgsize - 16 - 40).toInt64.toInt32.toInt64.toUInt64 = body at hbody ⊢
    have hlt := msgsize.toNat_lt
    have hsum : ((Int.bmod (msgsize.toNat - 56) (2 ^ 32) + 64) % 2 ^ 64).toNat =
        (64 + body.toNat) % 2 ^ 64 := by
      omega
    rw [hsum]
    refine or_congr_left ?_
    rw [Int.bmod_def] at hbody
    omega

/-- A buffer without a header: the segment has the 8 bytes of the field, and nearly `2 ^ 64` bytes
are copied. -/
theorem infuse_sizes_false_of_short :
    let tap : Tap := ⟨33554432, fun _ => true, true⟩
    tap.infuseBuffer 0 = (0, some ⟨8, 8, 18446744073709551560⟩) ∧
      ¬(Refused (tap.infuseBuffer 0) ∨ 56 ≤ (0 : UInt64).toNat ∧
        Writes (tap.infuseBuffer 0) tap.shmmax ((0 : UInt64).toNat - 56)) := by
  refine ⟨by decide +kernel, ?_⟩
  rintro (hrefused | ⟨hheader, -⟩)
  · exact absurd (congrArg Prod.fst hrefused) (by decide +kernel)
  · exact absurd hheader (by decide)

/-- The size of a body of 4 GiB becomes zero, and the call returns `0`. -/
example : (⟨33554432, fun _ => true, true⟩ : Tap).infuseBuffer (56 + 2 ^ 32) =
    (0, some ⟨64, 64, 0⟩) := by decide +kernel

end Nynn
