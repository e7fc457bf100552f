import VectorDb.Basic

/-!
# One line of the log

* `Line` : a line fits into a slot;
* `LineBuf.snprintf` : the macro `_snprintf`, that counts the bytes that are left;
* `formatLine` : the prefix, the message and the place in the source;
* `formatLine_eq_iff` : when nothing is cut.
-/

namespace VectorDb
namespace SimpleLogger

/-- `MSG_SIZE`. -/
def msgSize : Nat := 4096

structure Line where
  text : Bytes
  length_le : text.length ≤ msgSize
  deriving DecidableEq

/-- `avail_len`, and the `cur_len` bytes of `msg`. -/
structure LineBuf where
  availLen : Nat
  msg : Bytes

namespace LineBuf

/-- `avail_len` goes down by all of `cur_len` each time. -/
def avail (b : LineBuf) : Nat := if b.msg.length < b.availLen then b.availLen - b.msg.length else 0

/-- What does not fit is cut before a NUL, that counts. -/
def snprintf (b : LineBuf) (text : Bytes) : LineBuf where
  availLen := b.avail
  msg := b.msg ++ if text.length < b.avail then text else (text.take (b.avail - 1) ++ [0]).take b.avail

structure Bounded (b : LineBuf) : Prop where
  avail_le : b.availLen ≤ msgSize
  length_le : b.msg.length ≤ msgSize

theorem avail_eq (b : LineBuf) : b.avail = b.availLen - b.msg.length := by
  unfold avail
  split <;> omega

theorem Bounded.snprintf {b : LineBuf} (h : b.Bounded) (text : Bytes) : (b.snprintf text).Bounded := by
  have havail := b.avail_eq
  obtain ⟨hle, hlen⟩ := h
  constructor
  · show b.avail ≤ msgSize
    omega
  · show (b.msg ++ if text.length < b.avail then text else (text.take (b.avail - 1) ++ [0]).take b.avail).length ≤ msgSize
    rw [List.length_append]
    split
    · omega
    · rw [List.length_take]
      omega

theorem snprintf_of_lt {b : LineBuf} {text : Bytes} (h : text.length < b.avail) : b.snprintf text = ⟨b.avail, b.msg ++ text⟩ := by
  rw [snprintf, if_pos h]

/-- A cut leaves a NUL, or nothing at all. -/
theorem msg_snprintf_of_le {b : LineBuf} {text : Bytes} (h : b.avail ≤ text.length) :
    (0 : UInt8) ∈ (b.snprintf text).msg ∨ b.avail = 0 ∧ (b.snprintf text).msg = b.msg := by
  rw [snprintf, if_neg (Nat.not_lt.mpr h)]
  rcases Nat.eq_zero_or_pos b.avail with h0 | hpos
  · right
    rw [h0, List.take_zero, List.append_nil]
    exact ⟨rfl, rfl⟩
  · left
    have hlen : (text.take (b.avail - 1) ++ [(0 : UInt8)]).length ≤ b.avail := by
      rw [List.length_append, List.length_take, List.length_singleton]
      omega
    rw [List.take_of_length_le hlen]
    simp

theorem mem_snprintf {b : LineBuf} {c : UInt8} (h : c ∈ b.msg) (text : Bytes) : c ∈ (b.snprintf text).msg :=
  List.mem_append_left _ h

end LineBuf

/-- The three calls of `_snprintf`. -/
def formatBuf (prefx msg place : Bytes) : LineBuf :=
  (((⟨msgSize, []⟩ : LineBuf).snprintf prefx).snprintf msg).snprintf place

theorem bounded_formatBuf (prefx msg place : Bytes) : (formatBuf prefx msg place).Bounded := by
  have h : (⟨msgSize, []⟩ : LineBuf).Bounded := ⟨Nat.le_refl _, Nat.zero_le _⟩
  exact ((h.snprintf prefx).snprintf msg).snprintf place

/-- The line of a `put`. -/
def formatLine (prefx msg place : Bytes) : Line := ⟨(formatBuf prefx msg place).msg, (bounded_formatBuf prefx msg place).length_le⟩

/-- **A line is whole** exactly if the message, the place and twice the prefix are together shorter than `MSG_SIZE`:
what was written before the message is subtracted twice from the room for the place. It is never longer than that. -/
theorem formatLine_eq_iff {prefx msg place : Bytes} (h0 : (0 : UInt8) ∉ prefx ++ msg ++ place) (hplace : place ≠ []) :
    ((formatLine prefx msg place).text = prefx ++ msg ++ place ↔
      2 * prefx.length + msg.length + place.length < msgSize) ∧ (formatLine prefx msg place).text.length ≤ msgSize := by
  refine ⟨?_, (formatLine prefx msg place).length_le⟩
  have hpos : 0 < place.length := List.length_pos_iff.mpr hplace
  have hcut : ∀ {bs : Bytes}, (0 : UInt8) ∈ bs → bs ≠ prefx ++ msg ++ place := by
    rintro bs hmem rfl
    exact h0 hmem
  show (formatBuf prefx msg place).msg = _ ↔ _
  unfold formatBuf
  have havail : (⟨msgSize, []⟩ : LineBuf).avail = msgSize := rfl
  rcases Nat.lt_or_ge prefx.length msgSize with hp | hp
  · have hfirst : (⟨msgSize, []⟩ : LineBuf).snprintf prefx = ⟨msgSize, prefx⟩ := LineBuf.snprintf_of_lt hp
    rw [hfirst]
    have havail : (⟨msgSize, prefx⟩ : LineBuf).avail = msgSize - prefx.length := LineBuf.avail_eq _
    rcases Nat.lt_or_ge msg.length (msgSize - prefx.length) with hm | hm
    · have hsecond : (⟨msgSize, prefx⟩ : LineBuf).snprintf msg = ⟨msgSize - prefx.length, prefx ++ msg⟩ := by
        rw [LineBuf.snprintf_of_lt (havail.symm ▸ hm), havail]
      rw [hsecond]
      have havail : (⟨msgSize - prefx.length, prefx ++ msg⟩ : LineBuf).avail = msgSize - prefx.length - (prefx ++ msg).length :=
        LineBuf.avail_eq _
      have hlen : (prefx ++ msg).length = prefx.length + msg.length := List.length_append
      rcases Nat.lt_or_ge place.length (msgSize - prefx.length - (prefx ++ msg).length) with hq | hq
      · rw [LineBuf.snprintf_of_lt (havail.symm ▸ hq)]
        exact iff_of_true rfl (by omega)
      · refine iff_of_false ?_ (by omega)
        rcases LineBuf.msg_snprintf_of_le (havail.symm ▸ hq) with hmem | ⟨-, hsame⟩
        · exact hcut hmem
        · rw [hsame]
          intro heq
          have hlens := congrArg List.length heq
          dsimp only at hlens
          have hwhole : (prefx ++ msg ++ place).length = (prefx ++ msg).length + place.length := List.length_append
          rw [hwhole] at hlens
          omega
    · refine iff_of_false (hcut (LineBuf.mem_snprintf ?_ place)) (by omega)
      exact (LineBuf.msg_snprintf_of_le (havail.symm ▸ hm)).resolve_right fun h => by omega
  · refine iff_of_false (hcut (LineBuf.mem_snprintf (LineBuf.mem_snprintf ?_ msg) place)) (by omega)
    exact (LineBuf.msg_snprintf_of_le (havail.symm ▸ hp)).resolve_right fun h => absurd (havail.symm.trans h.1) (by decide)

theorem formatLine_short : (formatLine (ascii "[INFO] ") (ascii "started") (ascii "\n")).text = ascii "[INFO] started\n" :=
  (formatLine_eq_iff (by decide) (by decide)).1.mpr (by decide)

end SimpleLogger
end VectorDb
