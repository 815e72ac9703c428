/-
# What a pin name means

`drivers/pin/pin.cpp` with the calls that it makes of the SDK.  `configPin` takes
a name apart at fixed places: a `G` first, then the characters at 2 and 3, less
`'0'` in 16 bits, without a look at the length or at the digits.  So every name
that starts with `G` initialises some pin, `"GP7"` for one the pin 22, and a name
that does not is refused with `pin` left as memory had it; `set` and `get` use
`pin` in every case.

Only the thirty names of the documented form are read as they are meant
(`meansWhatItSays_iff`).
-/

import Remora.Config.LoadModules

namespace Remora

open Basis

/-- A call of the GPIO functions of the SDK. -/
inductive GpioCall where
  | init (gpio : ℕ)
  | setDir (gpio : ℕ) (out : Bool)
  | setPulls (gpio : ℕ) (up down : Bool)
  | put (gpio : ℕ) (value : Bool)
  | get (gpio : ℕ)
  deriving DecidableEq

/-- The bytes of a string. -/
def nameBytes (s : String) : List Byte := s.toUTF8.data.toList.map UInt8.toBitVec

/-- `portAndPin[i]`: zero at the end, and past it what memory holds. -/
def byteAt (beyond : ℕ → Byte) (portAndPin : List Byte) (i : ℕ) : Byte :=
  if h : i < portAndPin.length then portAndPin[i] else if i = portAndPin.length then 0 else beyond i

/-- `class Pin`; `mode` is `GPIO_OUT` or not. -/
structure Pin where
  portAndPin : List Byte
  dir : Byte
  modifier : Byte
  pinNumber : BitVec 16
  pin : BitVec 16
  mode : Bool
  pullup : Bool
  pulldown : Bool

/-- `INPUT` -/
def INPUT : Byte := 0

/-- `OUTPUT` -/
def OUTPUT : Byte := 1

/-- `PULLUP` -/
def PULLUP : Byte := 0b010

/-- `PULLDOWN` -/
def PULLDOWN : Byte := 0b011

/-- `PULLNONE` -/
def PULLNONE : Byte := 0b100

namespace Pin

/-- `configPin`: the object and the calls. -/
def configPin (beyond : ℕ → Byte) (p : Pin) : Pin × List GpioCall :=
  let portAndPin := byteAt beyond p.portAndPin
  if portAndPin 0 = 0x47 then
    let pinNumber : BitVec 16 := (portAndPin 3).setWidth 16 - 0x30
    let pin2 : BitVec 16 := (portAndPin 2).setWidth 16 - 0x30
    let pinNumber := if pin2 > 0 then pin2 * 10 + pinNumber else pinNumber
    let p := { p with pinNumber := pinNumber, pin := pinNumber }
    (p, [.init p.pin.toNat, .setDir p.pin.toNat p.mode,
      .setPulls p.pin.toNat p.pullup p.pulldown])
  else (p, [])

/-- `set` -/
def set (p : Pin) (value : Bool) : List GpioCall :=
  if value then [.put p.pin.toNat true] else [.put p.pin.toNat false]

/-- `get` -/
def get (p : Pin) : List GpioCall := [.get p.pin.toNat]

/-- `Pin::Pin(std::string, int)`, on memory that holds `raw`. -/
def new (raw : Pin) (beyond : ℕ → Byte) (portAndPin : List Byte) (dir : Byte) :
    Pin × List GpioCall :=
  let p := { raw with portAndPin := portAndPin, dir := dir }
  let p :=
    if dir = INPUT then { p with mode := false, pullup := false, pulldown := false }
    else { p with mode := true, pullup := false, pulldown := false }
  p.configPin beyond

/-- `Pin::Pin(std::string, int, int)`, on memory that holds `raw`.  The `switch` has no
`default`. -/
def newWithModifier (raw : Pin) (beyond : ℕ → Byte) (portAndPin : List Byte)
    (dir modifier : Byte) : Pin × List GpioCall :=
  let p := { raw with portAndPin := portAndPin, dir := dir, modifier := modifier }
  let p :=
    if dir = INPUT then
      let p := { p with mode := false }
      if modifier = PULLUP then { p with pullup := true, pulldown := false }
      else if modifier = PULLDOWN then { p with pullup := false, pulldown := true }
      else if modifier = PULLNONE then { p with pullup := false, pulldown := false }
      else p
    else { p with mode := true, pullup := false, pulldown := false }
  p.configPin beyond

/-- The number that `configPin` reads in a name. -/
def number (beyond : ℕ → Byte) (portAndPin : List Byte) : BitVec 16 :=
  let pinNumber : BitVec 16 := (byteAt beyond portAndPin 3).setWidth 16 - 0x30
  let pin2 : BitVec 16 := (byteAt beyond portAndPin 2).setWidth 16 - 0x30
  if pin2 > 0 then pin2 * 10 + pinNumber else pinNumber

/-- The calls that configure a pin. -/
def configCalls (n : ℕ) (mode pullup pulldown : Bool) : List GpioCall :=
  [.init n, .setDir n mode, .setPulls n pullup pulldown]

/-- **What `configPin` does**: it sets two numbers and makes three calls, or nothing. -/
theorem configPin_eq (beyond : ℕ → Byte) (p : Pin) :
    p.configPin beyond =
      if byteAt beyond p.portAndPin 0 = 0x47 then
        ({ p with pinNumber := number beyond p.portAndPin, pin := number beyond p.portAndPin },
          configCalls (number beyond p.portAndPin).toNat p.mode p.pullup p.pulldown)
      else (p, []) := rfl

/-- The number is the one that the loader's `configPin` computes. -/
theorem toNat_pin_configPin (u : Uninitialised) {p : Pin} {name : String}
    (hname : p.portAndPin = nameBytes name) (hpin : p.pin = u.pin) :
    (p.configPin (u.beyond name)).1.pin.toNat = Remora.configPin u name := by
  have hchar : ∀ i, byteAt (u.beyond name) p.portAndPin i = charAt u name i := by
    rw [hname]
    exact fun _ => rfl
  unfold configPin Remora.configPin
  simp only [hchar]
  split_ifs
  · rfl
  · rfl
  · exact congrArg BitVec.toNat hpin

theorem set_eq (p : Pin) (value : Bool) : p.set value = [.put p.pin.toNat value] := by
  cases value <;> rfl

end Pin

/-- `GPXX`, e.g. `GP01`, `GP21`: the documented name of the pin `n`. -/
def pinName (n : ℕ) : List Byte :=
  [0x47, 0x50, BitVec.ofNat 8 (0x30 + n / 10), BitVec.ofNat 8 (0x30 + n % 10)]

/-- **A name means the pin it says.**  A documented name initialises its pin, and
`set` and `get` then use that pin; any other is refused, and no pin is touched. -/
structure MeansWhatItSays (s : List Byte) : Prop where
  named : ∀ n ≤ 29, s = pinName n → ∀ (p : Pin) (beyond : ℕ → Byte), p.portAndPin = s →
    (p.configPin beyond).2 = [.init n, .setDir n p.mode, .setPulls n p.pullup p.pulldown] ∧
    (∀ value, (p.configPin beyond).1.set value = [.put n value]) ∧
    (p.configPin beyond).1.get = [.get n]
  refused : (∀ n ≤ 29, s ≠ pinName n) → ∀ (p : Pin) (beyond : ℕ → Byte), p.portAndPin = s →
    (p.configPin beyond).2 = [] ∧
    (∀ value, (p.configPin beyond).1.set value = []) ∧
    (p.configPin beyond).1.get = []

/-- Two digits less `'0'` make up the number. -/
theorem number_pinName (beyond : ℕ → Byte) {n : ℕ} (hn : n ≤ 29) :
    Pin.number beyond (pinName n) = BitVec.ofNat 16 n := by
  have hdigits : ∀ n ≤ 29,
      (let pinNumber : BitVec 16 := (BitVec.ofNat 8 (0x30 + n % 10)).setWidth 16 - 0x30
       let pin2 : BitVec 16 := (BitVec.ofNat 8 (0x30 + n / 10)).setWidth 16 - 0x30
       if pin2 > 0 then pin2 * 10 + pinNumber else pinNumber) = BitVec.ofNat 16 n := by
    decide
  exact hdigits n hn

/-- **A documented name is read as it is meant.** -/
theorem configPin_pinName {n : ℕ} (hn : n ≤ 29) {p : Pin} (hp : p.portAndPin = pinName n)
    (beyond : ℕ → Byte) :
    p.configPin beyond =
      ({ p with pinNumber := BitVec.ofNat 16 n, pin := BitVec.ofNat 16 n },
        Pin.configCalls n p.mode p.pullup p.pulldown) := by
  have hG : byteAt beyond p.portAndPin 0 = 0x47 := by rw [hp]; rfl
  have htoNat : (BitVec.ofNat 16 n).toNat = n := by
    rw [BitVec.toNat_ofNat]
    omega
  rw [Pin.configPin_eq, if_pos hG, hp, number_pinName beyond hn, htoNat]

/-- **Pin names mean the pin they say** for the names `GP00` to `GP29`, and for no other
string: no other is refused for good, since `set` and `get` use `pin` in any case. -/
theorem meansWhatItSays_iff (s : List Byte) : MeansWhatItSays s ↔ ∃ n ≤ 29, s = pinName n := by
  constructor
  · intro h
    by_contra hnone
    have hother : ∀ n ≤ 29, s ≠ pinName n := fun n hn hs => hnone ⟨n, hn, hs⟩
    obtain ⟨-, -, hget⟩ := h.refused hother ⟨s, 0, 0, 0, 0, false, false, false⟩ (fun _ => 0) rfl
    exact List.cons_ne_nil _ _ hget
  · rintro ⟨n, hn, rfl⟩
    refine ⟨?_, fun hother => absurd rfl (hother n hn)⟩
    intro m hm hname p beyond hp
    have htoNat : (BitVec.ofNat 16 m).toNat = m := by
      rw [BitVec.toNat_ofNat]
      omega
    rw [configPin_pinName hm (hp.trans hname) beyond]
    exact ⟨rfl, fun value => by rw [Pin.set_eq, htoNat], by rw [Pin.get, htoNat]⟩

/-- `"GP7"` is no documented name, but initialises and drives the pin 22. -/
theorem not_meansWhatItSays : ¬MeansWhatItSays (nameBytes "GP7") := by
  intro h
  have hother : ∀ n ≤ 29, nameBytes "GP7" ≠ pinName n := by decide
  have hcalls := (h.refused hother ⟨nameBytes "GP7", 0, 0, 0, 0, true, false, false⟩
    (fun _ => 0) rfl).1
  have hinit :
      (Pin.configPin (fun _ => 0) ⟨nameBytes "GP7", 0, 0, 0, 0, true, false, false⟩).2 =
        [.init 22, .setDir 22 true, .setPulls 22 false false] := by decide
  rw [hinit] at hcalls
  cases hcalls

end Remora
