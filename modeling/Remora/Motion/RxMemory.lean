/-
# The receive buffers in memory

`RxPingPongBuffer` of `remora.h` as it lies in memory.  The structure is packed:

| | offset | bytes |
| --- | ---: | ---: |
| `rxBuffers[0]` | 0 | 68 |
| `rxBuffers[1]` | 68 | 68 |
| `currentRxBuffer` | 136 | 4 |

`udp_data_callback` copies `p->len` bytes to the inactive buffer, and `p->len` is
the sender's.  From byte 68 on a datagram lies over what stands behind that
buffer: the index, when the inactive buffer is the second; the command in force
and then the index, when it is the first.  Behind the structure stand other globals,
among them those through which the same call goes on to work (`txPingPongBuffer`,
`comms`), so what a call does whose copy ends behind the structure is not known here.
It counts as one that does not stay inside (`StaysInside.ends`).  The packet sent in
reply is not looked at.

A datagram of at most `BUFFER_SIZE` bytes does to the structure what it does to
the buffers of `Controller` (`decode_udpDataCallback`).
-/

import Remora.Basis.Memory
import Remora.Motion.Controller

namespace Remora
namespace RxMemory

open Basis

/-- `&buffer->rxBuffers[i]` -/
def rxBuffers (i : Word) : ℤ := BUFFER_SIZE * i.toInt

/-- `buffer->currentRxBuffer` -/
def currentRxBuffer (m : Memory) : Word := m.word 136

/-- `getCurrentRxBuffer` -/
def getCurrentRxBuffer (m : Memory) : ℤ := rxBuffers (currentRxBuffer m)

/-- `getAltRxBuffer` -/
def getAltRxBuffer (m : Memory) : ℤ := rxBuffers (1 - currentRxBuffer m)

/-- `swapRxBuffers` -/
def swapRxBuffers (m : Memory) : Memory := m.setWord 136 (1 - currentRxBuffer m)

/-- The memory once the payload is copied to the inactive buffer. -/
def received (m : Memory) (payload : List Byte) : Memory := m.copy (getAltRxBuffer m) payload

/-- `rxBuffer->header`, read after the copy. -/
def header (m : Memory) (payload : List Byte) : Word :=
  (received m payload).word (getAltRxBuffer m)

/-- `udp_data_callback`, as far as the rx buffers go. -/
def udpDataCallback (m : Memory) (payload : List Byte) : Memory :=
  if header m payload = PRU_READ then received m payload
  else if header m payload = PRU_WRITE then swapRxBuffers (received m payload)
  else received m payload

/-- `ST_RESET`: every byte of the active buffer is cleared. -/
def resetRxBuffer (m : Memory) : Memory := m.clear (getCurrentRxBuffer m) BUFFER_SIZE

/-- What writes to the structure. -/
inductive RxEvent where
  | udp (payload : List Byte)
  | reset

/-- The memory after an event. -/
def step (m : Memory) : RxEvent → Memory
  | .udp payload => udpDataCallback m payload
  | .reset => resetRxBuffer m

/-- The index is `0` or `1`. -/
def Indexed (m : Memory) : Prop := currentRxBuffer m = 0 ∨ currentRxBuffer m = 1

/-- A call stays inside the inactive buffer, a swap apart. -/
structure StaysInside (m : Memory) (payload : List Byte) : Prop where
  /-- The copy ends inside the structure. -/
  ends : getAltRxBuffer m + payload.length ≤ 140
  /-- No byte of either buffer changes but those of the inactive one. -/
  bytes : ∀ a, 0 ≤ a → a < 136 → a < getAltRxBuffer m ∨ getAltRxBuffer m + BUFFER_SIZE ≤ a →
    udpDataCallback m payload a = m a
  /-- The index is toggled by what is handled as a write, and by nothing else. -/
  index : currentRxBuffer (udpDataCallback m payload) =
    if header m payload = PRU_WRITE then 1 - currentRxBuffer m else currentRxBuffer m
  /-- The index stays an index. -/
  indexed : Indexed (udpDataCallback m payload)
  /-- Without a toggle the command in force stays as it is. -/
  command : header m payload ≠ PRU_WRITE → ∀ i : ℕ, i < BUFFER_SIZE →
    udpDataCallback m payload (getCurrentRxBuffer (udpDataCallback m payload) + i) =
      m (getCurrentRxBuffer m + i)

/-- What an event must keep: a reset has the index to keep. -/
def KeepsRx (m : Memory) : RxEvent → Prop
  | .udp payload => StaysInside m payload
  | .reset => currentRxBuffer (resetRxBuffer m) = currentRxBuffer m

/-- A payload ends inside the structure, and its bytes past the inactive buffer are
those that stand there. -/
structure Harmless (m : Memory) (payload : List Byte) : Prop where
  ends : getAltRxBuffer m + payload.length ≤ 140
  same : ∀ (i : ℕ) (h : i < payload.length), BUFFER_SIZE ≤ i →
    payload[i] = m (getAltRxBuffer m + i)

/-- Where the buffers stand, for either value of the index. -/
theorem Indexed.cases {m : Memory} (h : Indexed m) :
    (currentRxBuffer m = 0 ∧ getCurrentRxBuffer m = 0 ∧ getAltRxBuffer m = 68) ∨
    (currentRxBuffer m = 1 ∧ getCurrentRxBuffer m = 68 ∧ getAltRxBuffer m = 0) := by
  rcases h with h | h
  · exact Or.inl ⟨h, by rw [getCurrentRxBuffer, h]; rfl, by rw [getAltRxBuffer, h]; rfl⟩
  · exact Or.inr ⟨h, by rw [getCurrentRxBuffer, h]; rfl, by rw [getAltRxBuffer, h]; rfl⟩

/-- A datagram that fits is harmless. -/
theorem harmless_of_fits {m : Memory} (hm : Indexed m) {payload : List Byte}
    (h : payload.length ≤ BUFFER_SIZE) : Harmless m payload := by
  simp only [BUFFER_SIZE] at h
  refine ⟨?_, fun i hi hle => ?_⟩
  · rcases hm.cases with ⟨-, -, halt⟩ | ⟨-, -, halt⟩ <;> omega
  · simp only [BUFFER_SIZE] at hle
    omega

theorem Indexed.toggle {m : Memory} (h : Indexed m) :
    1 - currentRxBuffer m = 0 ∨ 1 - currentRxBuffer m = 1 := by
  rcases h with h | h
  · exact Or.inr (by rw [h]; rfl)
  · exact Or.inl (by rw [h]; rfl)

/-- **What a call does**: the copy, and the toggle of what is then in the index. -/
theorem udp_cases (m : Memory) (payload : List Byte) :
    (header m payload ≠ PRU_WRITE ∧ udpDataCallback m payload = received m payload) ∨
    (header m payload = PRU_WRITE ∧
      udpDataCallback m payload = swapRxBuffers (received m payload)) := by
  unfold udpDataCallback
  by_cases hr : header m payload = PRU_READ
  · exact Or.inl ⟨by rw [hr]; decide, if_pos hr⟩
  · rw [if_neg hr]
    by_cases hw : header m payload = PRU_WRITE
    · exact Or.inr ⟨hw, if_pos hw⟩
    · exact Or.inl ⟨hw, if_neg hw⟩

/-- A call leaves below the index what the copy leaves there. -/
theorem udpDataCallback_of_lt (m : Memory) (payload : List Byte) {a : ℤ} (h : a < 136) :
    udpDataCallback m payload a = received m payload a := by
  rcases udp_cases m payload with ⟨-, hcall⟩ | ⟨-, hcall⟩
  · rw [hcall]
  · rw [hcall, swapRxBuffers, Memory.setWord_of_disjoint _ _ (Or.inl h)]

/-- The index a call leaves, by the one that the copy leaves. -/
theorem currentRxBuffer_udpDataCallback (m : Memory) (payload : List Byte) :
    currentRxBuffer (udpDataCallback m payload) =
      if header m payload = PRU_WRITE then 1 - currentRxBuffer (received m payload)
      else currentRxBuffer (received m payload) := by
  rcases udp_cases m payload with ⟨hw, hcall⟩ | ⟨hw, hcall⟩
  · rw [hcall, if_neg hw]
  · rw [hcall, if_pos hw]
    exact Memory.word_setWord _ _ _

/-- A harmless copy changes the inactive buffer only. -/
theorem Harmless.received {m : Memory} {payload : List Byte} (h : Harmless m payload) {a : ℤ}
    (ha : a < 140) (hout : a < getAltRxBuffer m ∨ getAltRxBuffer m + BUFFER_SIZE ≤ a) :
    received m payload a = m a := by
  rcases hout with hout | hout
  · exact Memory.copy_of_disjoint _ (Or.inl hout)
  · obtain ⟨i, rfl⟩ : ∃ i : ℕ, a = getAltRxBuffer m + i :=
      ⟨(a - getAltRxBuffer m).toNat, by omega⟩
    by_cases hi : i < payload.length
    · rw [RxMemory.received, Memory.copy_add _ _ hi]
      exact h.same i hi (by omega)
    · exact Memory.copy_of_disjoint _ (Or.inr (by omega))

theorem Harmless.currentRxBuffer {m : Memory} (hm : Indexed m) {payload : List Byte}
    (h : Harmless m payload) :
    currentRxBuffer (RxMemory.received m payload) = currentRxBuffer m := by
  refine Memory.word_congr fun i hi => h.received (by omega) (Or.inr ?_)
  rcases hm.cases with ⟨-, -, halt⟩ | ⟨-, -, halt⟩ <;>
    · rw [halt]
      simp only [BUFFER_SIZE]
      omega

/-- **A call stays inside the inactive buffer** exactly when it ends inside the
structure and the bytes that reach past the buffer are those that stand there. -/
theorem staysInside_iff {m : Memory} (hm : Indexed m) (payload : List Byte) :
    StaysInside m payload ↔ Harmless m payload := by
  constructor
  · refine fun h => ⟨h.ends, fun i hi hle => ?_⟩
    have hends := h.ends
    have hreceived : received m payload (getAltRxBuffer m + i) = payload[i] :=
      Memory.copy_add _ _ hi
    rw [← hreceived]
    have halt : 0 ≤ getAltRxBuffer m := by
      rcases hm.cases with ⟨-, -, h⟩ | ⟨-, -, h⟩ <;> omega
    by_cases hbelow : getAltRxBuffer m + i < 136
    · rw [← udpDataCallback_of_lt m payload hbelow]
      exact h.bytes _ (by omega) hbelow (Or.inr (by omega))
    · -- the byte is one of the index, and the index is what it was before the toggle
      have hindex : currentRxBuffer (received m payload) = currentRxBuffer m := by
        have hcall := (currentRxBuffer_udpDataCallback m payload).symm.trans h.index
        split_ifs at hcall
        · bv_omega
        · exact hcall
      obtain ⟨k, hk⟩ : ∃ k : ℕ, getAltRxBuffer m + i = 136 + k :=
        ⟨(getAltRxBuffer m + i - 136).toNat, by omega⟩
      rw [hk]
      exact Memory.eq_of_word_eq hindex (by omega)
  · intro h
    have hindex := h.currentRxBuffer hm
    have hcall := currentRxBuffer_udpDataCallback m payload
    rw [hindex] at hcall
    refine ⟨h.ends, fun a _ ha hout => ?_, hcall, ?_, fun hw i hi => ?_⟩
    · rw [udpDataCallback_of_lt m payload ha]
      exact h.received (by omega) hout
    · unfold Indexed
      rw [hcall]
      split_ifs
      · exact hm.toggle
      · exact hm
    · rw [getCurrentRxBuffer, hcall, if_neg hw, ← getCurrentRxBuffer]
      have hbuf := hm.cases
      simp only [BUFFER_SIZE] at hi
      rw [udpDataCallback_of_lt m payload (by omega)]
      exact h.received (by omega) (by simp only [BUFFER_SIZE]; omega)

/-- A reset clears the active buffer and leaves the index alone. -/
theorem keepsRx_reset {m : Memory} (hm : Indexed m) : KeepsRx m .reset := by
  refine Memory.word_congr fun i hi => Memory.clear_of_disjoint _ (Or.inr ?_)
  rcases hm.cases with ⟨-, hcur, -⟩ | ⟨-, hcur, -⟩ <;> rw [hcur] <;>
    simp only [BUFFER_SIZE] <;> omega

/-- A step that keeps the buffers keeps an index. -/
theorem KeepsRx.indexed {m : Memory} (hm : Indexed m) {e : RxEvent} (h : KeepsRx m e) :
    Indexed (step m e) := by
  cases e with
  | udp payload => exact StaysInside.indexed h
  | reset =>
      have hindex : currentRxBuffer (step m .reset) = currentRxBuffer m := h
      rw [Indexed, hindex]
      exact hm

/-- **Every datagram of a run stays inside the inactive buffer** exactly when every
datagram of the run is harmless where it arrives. -/
theorem keepsRx_along_iff {m : Memory} (hm : Indexed m) (es : List RxEvent) :
    Along step KeepsRx m es ↔
      Along step (fun m e => ∀ payload, e = .udp payload → Harmless m payload) m es := by
  refine along_iff_along (fun m e hm => ?_) (fun m e hm h => h.indexed hm) hm es
  cases e with
  | udp payload => simp [KeepsRx, staysInside_iff hm]
  | reset => simp [keepsRx_reset hm]

/-- A reset, and a read of 70 bytes whose last two are those of the index. -/
theorem keepsRx_along_zero :
    Along step KeepsRx (fun _ => 0)
      [.reset, .udp ([0x64, 0x61, 0x65, 0x72] ++ List.replicate 66 0)] := by
  have hm : Indexed fun _ => 0 := Or.inl rfl
  refine (keepsRx_along_iff hm _).2 ⟨by simp, fun payload hp => ?_, trivial⟩
  obtain rfl := RxEvent.udp.inj hp
  have hzero : step (fun _ => 0) .reset = fun _ => 0 := funext fun _ => ite_self _
  rw [hzero]
  refine ⟨by decide, fun i hi hle => ?_⟩
  rw [List.getElem_append_right (by simp only [BUFFER_SIZE] at hle; simp; omega),
    List.getElem_replicate]

/-- A read of 69 bytes makes `5` the index. -/
theorem not_keepsRx_along :
    ¬Along step KeepsRx (fun _ => 0)
      [.udp ([0x64, 0x61, 0x65, 0x72] ++ List.replicate 64 0 ++ [5])] := by
  rintro ⟨h, -⟩
  have hbyte := ((staysInside_iff (Or.inl rfl) _).1 h).same 68 (by decide) (by decide)
  exact absurd hbyte (by decide)

/-- The buffers and the index that the memory holds. -/
def decode (m : Memory) : RxPingPongBuffer where
  buffers b := ⟨fun i => m (BUFFER_SIZE * b.val + i.val)⟩
  index := if currentRxBuffer m = 0 then ⟨0, by decide⟩ else ⟨1, by decide⟩

theorem decode_eq_iff {m : Memory} {p : RxPingPongBuffer} :
    decode m = p ↔ (decode m).index = p.index ∧ ∀ b (i : Fin BUFFER_SIZE),
      m (BUFFER_SIZE * b.val + i.val) = (p.buffers b).rxBuffer i := by
  constructor
  · rintro rfl
    exact ⟨rfl, fun _ _ => rfl⟩
  · rintro ⟨hindex, hbytes⟩
    obtain ⟨buffers, index⟩ := p
    refine PingPong.mk.injEq _ _ _ _ ▸ ⟨funext fun b => ?_, hindex⟩
    exact congrArg RxData.mk (funext (hbytes b))

/-- The active and the inactive buffer stand where the index says. -/
theorem rxBuffers_eq {m : Memory} (hm : Indexed m) :
    getCurrentRxBuffer m = BUFFER_SIZE * ((decode m).index.val : ℤ) ∧
      getAltRxBuffer m = BUFFER_SIZE * ((1 - (decode m).index).val : ℤ) := by
  rcases hm.cases with ⟨h, hcur, halt⟩ | ⟨h, hcur, halt⟩ <;>
    · rw [hcur, halt]
      simp only [decode, h]
      decide

/-- Copying a datagram that fits is copying it over the inactive buffer. -/
theorem decode_received {m : Memory} (hm : Indexed m) (d : Datagram) :
    decode (received m d.payload) = (decode m).setAlt ((decode m).alt.memcpy d) := by
  have hfits := d.fits
  have hharmless := harmless_of_fits hm hfits
  have hindex := hharmless.currentRxBuffer hm
  refine decode_eq_iff.2 ⟨by simp [decode, hindex], fun b i => ?_⟩
  have halt := (rxBuffers_eq hm).2
  simp only [PingPong.setAlt, Function.update_apply]
  split_ifs with hb
  · rw [hb, ← halt]
    by_cases hi : i.val < d.payload.length
    · rw [received, Memory.copy_add _ _ hi]
      simp [RxData.memcpy, hi]
    · rw [received, Memory.copy_of_disjoint _ (Or.inr (by omega))]
      simp [RxData.memcpy, hi, PingPong.alt, decode, halt]
  · refine hharmless.received ?_ ?_
    · have := b.isLt
      have := i.isLt
      simp only [BUFFER_SIZE] at *
      omega
    · have := i.isLt
      have hne : b.val ≠ (1 - (decode m).index).val := fun h => hb (Fin.ext h)
      simp only [BUFFER_SIZE] at *
      omega

/-- The header in the inactive buffer. -/
theorem word_getAltRxBuffer {m : Memory} (hm : Indexed m) :
    m.word (getAltRxBuffer m) = (decode m).alt.header := by
  refine leWord_congr fun i hi => ?_
  rw [Octets.get_of_lt _ (by simp only [BUFFER_SIZE]; omega)]
  simp [PingPong.alt, decode, (rxBuffers_eq hm).2]

/-- A toggle of the index is a swap of the buffers. -/
theorem decode_swapRxBuffers {m : Memory} (hm : Indexed m) :
    decode (swapRxBuffers m) = (decode m).swap := by
  have hindex : currentRxBuffer (swapRxBuffers m) = 1 - currentRxBuffer m :=
    Memory.word_setWord _ _ _
  refine decode_eq_iff.2 ⟨?_, fun b i => ?_⟩
  · rw [PingPong.index_swap]
    rcases hm with h | h <;>
      · simp only [decode, hindex, h]
        decide
  · refine Memory.setWord_of_disjoint _ _ (Or.inl ?_)
    have := b.isLt
    have := i.isLt
    simp only [BUFFER_SIZE] at *
    omega

/-- **On a datagram that fits**, what `udp_data_callback` does to the memory is what
it does to the buffers. -/
theorem decode_udpDataCallback {fl : FloatUnit} {m : Memory} (hm : Indexed m) {s : Controller fl}
    (hs : s.rxPingPongBuffer = decode m) (d : Datagram) :
    decode (udpDataCallback m d.payload) = (Remora.udpDataCallback s d).1.rxPingPongBuffer := by
  have hreceived := decode_received hm d
  have hindex := (harmless_of_fits hm d.fits).currentRxBuffer hm
  have hm' : Indexed (received m d.payload) := by rwa [Indexed, hindex]
  have halt : getAltRxBuffer m = getAltRxBuffer (received m d.payload) := by
    rw [getAltRxBuffer, getAltRxBuffer, hindex]
  have hheader : header m d.payload = (s.received d).header := by
    rw [header, halt, word_getAltRxBuffer hm', hreceived, PingPong.alt_setAlt, Controller.received,
      hs]
  rcases s.udp_cases d with ⟨hr, hcall⟩ | ⟨hw, hcall⟩ | ⟨hr, hw, hcall⟩ <;>
    rw [hcall] <;> dsimp only
  · rw [udpDataCallback, if_pos (hheader.trans hr), hreceived, hs, Controller.received, hs]
  · have hw' : header m d.payload = PRU_WRITE := hheader.trans hw
    rw [udpDataCallback, if_neg (by rw [hw']; decide), if_pos hw', decode_swapRxBuffers hm',
      hreceived, hs, Controller.received, hs]
  · rw [Controller.Reads, ← hheader] at hr
    rw [Controller.Writes, ← hheader] at hw
    rw [udpDataCallback, if_neg hr, if_neg hw, hreceived, hs, Controller.received, hs]

end RxMemory
end Remora
