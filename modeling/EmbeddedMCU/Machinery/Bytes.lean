import Mathlib.Data.Int.Bitwise
import Mathlib.Data.List.GetD
import Mathlib.Tactic.SplitIfs

/-!
# Machinery/Bytes — numbers and messages in memory

    ┌─ length ─┬── message ──┬─ length ─┬── message ──┬ …

What a list of bytes stands for, read from either end, and the two's complement reading of a
number of so many bits.  `toInt_loadInt16` says a half-word picked out of a little-endian memory is
the signed reading of its two bytes.

A message in a stream is preceded by its length, in four bytes.  What starts with a frame starts
with that message and no other (`exists_cons_of_frame_prefix`), so a stream of frames is read back
message by message.
-/

namespace EmbeddedMCU

/-! ## Numbers -/

/-- The number the bytes stand for, the least significant first. -/
def leNat : List UInt8 → ℕ
  | [] => 0
  | b :: bs => b.toNat + 256 * leNat bs

/-- The number the bytes stand for, the most significant first. -/
def beNat (bs : List UInt8) : ℕ := leNat bs.reverse

/-- The signed reading of a number of `w` bits. -/
def twosComplement (w n : ℕ) : ℤ := if n < 2 ^ (w - 1) then n else n - 2 ^ w

/-- `memcpy`, as the contents of the destination after it. -/
def memcpy (dst src : List UInt8) (n : ℕ) : List UInt8 := src.take n ++ dst.drop n

/-- Copying over the whole of a destination leaves the source. -/
theorem memcpy_self {dst src : List UInt8} (h : dst.length = src.length) :
    memcpy dst src src.length = src := by
  rw [memcpy, List.take_length, ← h, List.drop_length, List.append_nil]

/-- The `i`-th `int16_t` of a little-endian memory. -/
def loadInt16 (mem : List UInt8) (i : ℕ) : Int16 :=
  Int16.ofBitVec ((mem.getD (2 * i + 1) 0).toBitVec ++ (mem.getD (2 * i) 0).toBitVec)

/-- The memory a `uint16_t` takes, little-endian. -/
def storeUInt16 (x : UInt16) : List UInt8 := [x.toUInt8, (x >>> 8).toUInt8]

/-- The two bytes of the `i`-th half-word, as a number. -/
theorem leNat_take_two_drop (mem : List UInt8) (i : ℕ) :
    leNat ((mem.drop (2 * i)).take 2)
      = (mem.getD (2 * i) 0).toNat + 256 * (mem.getD (2 * i + 1) 0).toNat := by
  have hlo : mem.getD (2 * i) 0 = (mem.drop (2 * i)).getD 0 0 := by simp
  have hhi : mem.getD (2 * i + 1) 0 = (mem.drop (2 * i)).getD 1 0 := by simp
  rw [hlo, hhi]
  cases mem.drop (2 * i) with
  | nil => rfl
  | cons lo rest =>
    cases rest with
    | nil => simp [leNat]
    | cons hi rest => simp [leNat]

/-- **A half-word of a little-endian memory is the signed reading of its two bytes.** -/
theorem toInt_loadInt16 (mem : List UInt8) (i : ℕ) :
    (loadInt16 mem i).toInt = twosComplement 16 (leNat ((mem.drop (2 * i)).take 2)) := by
  rw [leNat_take_two_drop, loadInt16, Int16.toInt_ofBitVec, BitVec.toInt_eq_toNat_cond,
    BitVec.toNat_append, ← Nat.shiftLeft_add_eq_or_of_lt (BitVec.isLt _), Nat.shiftLeft_eq,
    twosComplement]
  simp only [UInt8.toNat_toBitVec]
  have := (mem.getD (2 * i) 0).toNat_lt
  have := (mem.getD (2 * i + 1) 0).toNat_lt
  split_ifs <;> omega

/-! ## Messages -/

/-- A number in four bytes, the least significant first. -/
def leBytes (n : ℕ) : List UInt8 :=
  [UInt8.ofNat n, UInt8.ofNat (n / 2 ^ 8), UInt8.ofNat (n / 2 ^ 16), UInt8.ofNat (n / 2 ^ 24)]

@[simp] theorem length_leBytes (n : ℕ) : (leBytes n).length = 4 := rfl

/-- **The four bytes are the number**, when it fits. -/
theorem leNat_leBytes {n : ℕ} (h : n < 2 ^ 32) : leNat (leBytes n) = n := by
  simp only [leBytes, leNat, UInt8.toNat_ofNat']
  omega

/-- **Four bytes are the bytes of their number.** -/
theorem leBytes_leNat {bs : List UInt8} (h : bs.length = 4) : leBytes (leNat bs) = bs := by
  obtain ⟨a, b, c, d, rfl⟩ : ∃ a b c d, bs = [a, b, c, d] := by
    match bs, h with
    | [a, b, c, d], _ => exact ⟨a, b, c, d, rfl⟩
  have ha := a.toNat_lt
  have hb := b.toNat_lt
  have hc := c.toNat_lt
  have hd := d.toNat_lt
  simp only [leBytes, leNat, List.cons.injEq, ← UInt8.toNat_inj, UInt8.toNat_ofNat', and_true]
  refine ⟨?_, ?_, ?_, ?_⟩ <;> omega

/-- A message with its length in front. -/
def frame (m : List UInt8) : List UInt8 := leBytes m.length ++ m

@[simp] theorem length_frame (m : List UInt8) : (frame m).length = 4 + m.length := by
  rw [frame, List.length_append, length_leBytes]

/-- The length a frame starts with. -/
theorem leNat_take_frame {m : List UInt8} (h : m.length < 2 ^ 32) (rest : List UInt8) :
    leNat ((frame m ++ rest).take 4) = m.length := by
  rw [frame, List.append_assoc, List.take_left' (length_leBytes _), leNat_leBytes h]

/-- **A stream of frames that starts with a frame starts with its message.** -/
theorem exists_cons_of_frame_prefix {m : List UInt8} {ms : List (List UInt8)}
    (hm : m.length < 2 ^ 32) (hms : ∀ x ∈ ms, x.length < 2 ^ 32)
    (h : frame m <+: ms.flatMap frame) : ∃ rest, ms = m :: rest := by
  obtain ⟨tail, htail⟩ := h
  cases ms with
  | nil =>
    have hlength := congrArg List.length htail
    simp at hlength
  | cons x rest =>
    have hx := hms x List.mem_cons_self
    rw [List.flatMap_cons] at htail
    have hlength : m.length = x.length := by
      rw [← leNat_take_frame hm tail, htail, leNat_take_frame hx]
    have hframe := (List.append_inj htail (by simp [hlength])).1
    have hmx := (List.append_inj hframe (by simp)).2
    exact ⟨rest, by rw [hmx]⟩

end EmbeddedMCU
