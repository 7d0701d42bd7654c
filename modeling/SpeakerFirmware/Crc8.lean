/-
# One CRC-8 in two drivers

The NVRAM driver checks its items with CRC-8/MAXIM from a table of nibbles. The binary receiver of
the UART commands computes the same check bit by bit.
-/

import SpeakerFirmware.Nvram.Model
import SpeakerFirmware.RemoteCmd.UartBinary

namespace SpeakerFirmware

open Nvram RemoteCmd.UartBinary

/-- Both steps read only the exclusive or of the register and the byte. -/
theorem crc8Byte_eq_binCrc8Feed : crc8Byte = binCrc8Feed := by
  have htable : ∀ x : Fin 256, crc8Byte 0 (UInt8.ofFin x) = binCrc8Feed 0 (UInt8.ofFin x) := by
    decide +kernel
  funext crc byte
  have h := htable (byte ^^^ crc).toFin
  simpa [crc8Byte, binCrc8Feed, UInt8.xor_comm crc] using h

/-- The two checks agree from any initial value, and both go on from where they stopped. -/
theorem calcCrc8_eq_binCrc8 (a b : List UInt8) (init : UInt8) :
    calcCrc8 a init = a.foldl binCrc8Feed init ∧ calcCrc8 a 0 = binCrc8 a ∧
      calcCrc8 (a ++ b) init = calcCrc8 b (calcCrc8 a init) ∧
      (a ++ b).foldl binCrc8Feed init = b.foldl binCrc8Feed (a.foldl binCrc8Feed init) := by
  simp only [calcCrc8, crc8Byte_eq_binCrc8Feed, binCrc8, List.foldl_append, and_self]

end SpeakerFirmware
