-- A buffer that takes new elements behind its last one and gives them away from
-- an offset on. Nothing here is about audio.
import Mathlib.Data.List.Basic
import Mathlib.Data.List.Infix

namespace EmbeddedAudio.TxBuffer

variable {α : Type*} {due sent buf : List α} {off : Nat}

/-- All that was due was given away or stands in the buffer behind the offset, in its order. -/
def Conveys (due sent buf : List α) (off : Nat) : Prop := sent ++ buf.drop off = due

theorem conveys_start (buf : List α) : Conveys buf [] buf 0 := rfl

theorem Conveys.leading (h : Conveys due sent buf off) : sent <+: due := ⟨buf.drop off, h⟩

/-- What was given away moves out of the buffer. -/
theorem Conveys.compact (h : Conveys due sent buf off) : Conveys due sent (buf.drop off) 0 := h

theorem Conveys.put (h : Conveys due sent buf off) (hoff : off ≤ buf.length) (more : List α) :
    Conveys (due ++ more) sent (buf ++ more) off := by
  unfold Conveys at h ⊢
  rw [List.drop_append_of_le_length hoff, ← List.append_assoc, h]

theorem Conveys.give (h : Conveys due sent buf off) (n : Nat) :
    Conveys due (sent ++ (buf.drop off).take n) buf
      (off + ((buf.drop off).take n).length) := by
  have hrest : buf.drop (off + ((buf.drop off).take n).length) = (buf.drop off).drop n := by
    rw [← List.drop_drop, List.length_take]
    rcases Nat.le_total n (buf.drop off).length with hle | hge
    · rw [Nat.min_eq_left hle]
    · rw [Nat.min_eq_right hge, List.drop_length, List.drop_eq_nil_of_le hge]
  unfold Conveys at h ⊢
  rw [hrest, List.append_assoc, List.take_append_drop]
  exact h

/-- The same with a buffer of which only the first `p` elements count. -/
theorem Conveys.giveFirst {p n : Nat} (h : Conveys due sent (buf.take p) off) (hn : off + n ≤ p)
    (hp : p ≤ buf.length) :
    Conveys due (sent ++ (buf.drop off).take n) (buf.take p) (off + n) := by
  have hsame : ((buf.take p).drop off).take n = (buf.drop off).take n := by
    rw [List.drop_take, List.take_take]
    congr 1
    omega
  have hlength : (((buf.take p).drop off).take n).length = n := by
    simp only [List.length_take, List.length_drop]
    omega
  have hgive := h.give n
  rwa [hlength, hsame] at hgive

/-- A buffer with nothing behind its offset starts over. -/
theorem Conveys.clear (h : Conveys due sent buf off) (hoff : buf.length ≤ off) :
    Conveys due sent [] 0 := by
  unfold Conveys at h ⊢
  rw [List.drop_eq_nil_of_le hoff] at h
  exact h

end EmbeddedAudio.TxBuffer
