/-
# Compile-time constants

`configuration.h`, the packet sizes of `tftpserver.h`, and the numbers the
source takes from the Pico SDK headers, which `configuration.h` documents:
sectors of 4 kB, pages of 256 bytes.  `PICO_FLASH_SIZE_BYTES` is that of the
default board of the SDK, the Pico (2 MB), since `CMakeLists.txt` names no other.
-/

import Remora.Basis.Octets

namespace Remora

open Basis

/-- `PRU_BASEFREQ`: the base thread's frequency in Hz. -/
def PRU_BASEFREQ : ℕ := 40000

/-- `PRU_SERVOFREQ`: the servo thread's frequency in Hz. -/
def PRU_SERVOFREQ : ℕ := 1000

/-- `BASE_SLICE` -/
def BASE_SLICE : ℕ := 0

/-- `SERVO_SLICE` -/
def SERVO_SLICE : ℕ := 1

/-- `STEPBIT`: the accumulator bit that makes a step. -/
def STEPBIT : Fin 32 := 22

/-- `JOINTS` -/
def JOINTS : ℕ := 6

/-- `PRU_DATA`, the reply to a read: `"data"`. -/
def PRU_DATA : Word := 0x64617461

/-- `PRU_READ`, a request for data: `"read"`. -/
def PRU_READ : Word := 0x72656164

/-- `PRU_WRITE`, a command: `"writ"`. -/
def PRU_WRITE : Word := 0x77726974

/-- `PRU_ACKNOWLEDGE`, the reply to a command: `"ackn"`. -/
def PRU_ACKNOWLEDGE : Word := 0x61636b6e

/-- `DATA_ERR_MAX`: servo runs without data that the watchdog forgives. -/
def DATA_ERR_MAX : Byte := 40

/-- `BUFFER_SIZE`: the size of a packet. -/
def BUFFER_SIZE : ℕ := 68

/-- `PICO_FLASH_SIZE_BYTES` of the default board. -/
def PICO_FLASH_SIZE_BYTES : ℕ := 2 * 1024 * 1024

/-- `FLASH_SECTOR_SIZE` -/
def FLASH_SECTOR_SIZE : ℕ := 4096

/-- `FLASH_PAGE_SIZE` -/
def FLASH_PAGE_SIZE : ℕ := 256

/-- The size of the upload region and of the storage region, `(32/4) * FLASH_SECTOR_SIZE`. -/
def REGION_SIZE : ℕ := 32 / 4 * FLASH_SECTOR_SIZE

/-- `JSON_UPLOAD_ADDRESS` -/
def JSON_UPLOAD_ADDRESS : ℕ := PICO_FLASH_SIZE_BYTES - 2 * 32 / 4 * FLASH_SECTOR_SIZE

/-- `JSON_STORAGE_ADDRESS` -/
def JSON_STORAGE_ADDRESS : ℕ := PICO_FLASH_SIZE_BYTES - 32 / 4 * FLASH_SECTOR_SIZE

/-- `METADATA_LEN` -/
def METADATA_LEN : ℕ := 512

/-- `TFTP_DATA_PKT_HDR_LEN` -/
def TFTP_DATA_PKT_HDR_LEN : ℕ := 4

/-- `TFTP_DATA_LEN_MAX` -/
def TFTP_DATA_LEN_MAX : ℕ := 512

/-- `TFTP_DATA_PKT_LEN_MAX` -/
def TFTP_DATA_PKT_LEN_MAX : ℕ := TFTP_DATA_PKT_HDR_LEN + TFTP_DATA_LEN_MAX

/-- `DEFAULT_CONFIG`: the text of the configuration used when none is stored. -/
def DEFAULT_CONFIG : List ℕ :=
  [0x7B, 0x0A, 0x09, 0x22, 0x42, 0x6F, 0x61, 0x72, 0x64, 0x22, 0x3A, 0x20, 0x22, 0x50, 0x49, 0x43,
   0x4F, 0x22, 0x2C, 0x0A, 0x09, 0x22, 0x4D, 0x6F, 0x64, 0x75, 0x6C, 0x65, 0x73, 0x22, 0x3A, 0x5B,
   0x0A, 0x09, 0x7B, 0x0A, 0x09, 0x22, 0x54, 0x68, 0x72, 0x65, 0x61, 0x64, 0x22, 0x3A, 0x20, 0x22,
   0x53, 0x65, 0x72, 0x76, 0x6F, 0x22, 0x2C, 0x0A, 0x09, 0x22, 0x54, 0x79, 0x70, 0x65, 0x22, 0x3A,
   0x20, 0x22, 0x42, 0x6C, 0x69, 0x6E, 0x6B, 0x22, 0x2C, 0x0A, 0x09, 0x09, 0x22, 0x43, 0x6F, 0x6D,
   0x6D, 0x65, 0x6E, 0x74, 0x22, 0x3A, 0x09, 0x09, 0x09, 0x22, 0x42, 0x6C, 0x69, 0x6E, 0x6B, 0x79,
   0x22, 0x2C, 0x0A, 0x09, 0x09, 0x22, 0x50, 0x69, 0x6E, 0x22, 0x3A, 0x09, 0x09, 0x09, 0x09, 0x22,
   0x47, 0x50, 0x32, 0x35, 0x22, 0x2C, 0x0A, 0x09, 0x09, 0x22, 0x46, 0x72, 0x65, 0x71, 0x75, 0x65,
   0x6E, 0x63, 0x79, 0x22, 0x3A, 0x20, 0x09, 0x09, 0x32, 0x0A, 0x09, 0x7D, 0x2C, 0x0A, 0x09, 0x7B,
   0x0A, 0x09, 0x22, 0x54, 0x68, 0x72, 0x65, 0x61, 0x64, 0x22, 0x3A, 0x20, 0x22, 0x42, 0x61, 0x73,
   0x65, 0x22, 0x2C, 0x0A, 0x09, 0x22, 0x54, 0x79, 0x70, 0x65, 0x22, 0x3A, 0x20, 0x22, 0x53, 0x74,
   0x65, 0x70, 0x67, 0x65, 0x6E, 0x22, 0x2C, 0x0A, 0x09, 0x09, 0x22, 0x43, 0x6F, 0x6D, 0x6D, 0x65,
   0x6E, 0x74, 0x22, 0x3A, 0x09, 0x09, 0x09, 0x22, 0x58, 0x20, 0x2D, 0x20, 0x4A, 0x6F, 0x69, 0x6E,
   0x74, 0x20, 0x30, 0x20, 0x73, 0x74, 0x65, 0x70, 0x20, 0x67, 0x65, 0x6E, 0x65, 0x72, 0x61, 0x74,
   0x6F, 0x72, 0x22, 0x2C, 0x0A, 0x09, 0x09, 0x22, 0x4A, 0x6F, 0x69, 0x6E, 0x74, 0x20, 0x4E, 0x75,
   0x6D, 0x62, 0x65, 0x72, 0x22, 0x3A, 0x09, 0x09, 0x30, 0x2C, 0x0A, 0x09, 0x09, 0x22, 0x53, 0x74,
   0x65, 0x70, 0x20, 0x50, 0x69, 0x6E, 0x22, 0x3A, 0x20, 0x09, 0x09, 0x22, 0x47, 0x50, 0x30, 0x32,
   0x22, 0x2C, 0x0A, 0x09, 0x09, 0x22, 0x44, 0x69, 0x72, 0x65, 0x63, 0x74, 0x69, 0x6F, 0x6E, 0x20,
   0x50, 0x69, 0x6E, 0x22, 0x3A, 0x20, 0x09, 0x22, 0x47, 0x50, 0x30, 0x33, 0x22, 0x0A, 0x09, 0x7D,
   0x2C, 0x0A, 0x09, 0x7B, 0x0A, 0x09, 0x22, 0x54, 0x68, 0x72, 0x65, 0x61, 0x64, 0x22, 0x3A, 0x20,
   0x22, 0x42, 0x61, 0x73, 0x65, 0x22, 0x2C, 0x0A, 0x09, 0x22, 0x54, 0x79, 0x70, 0x65, 0x22, 0x3A,
   0x20, 0x22, 0x53, 0x74, 0x65, 0x70, 0x67, 0x65, 0x6E, 0x22, 0x2C, 0x0A, 0x09, 0x09, 0x22, 0x43,
   0x6F, 0x6D, 0x6D, 0x65, 0x6E, 0x74, 0x22, 0x3A, 0x09, 0x09, 0x09, 0x22, 0x59, 0x20, 0x2D, 0x20,
   0x4A, 0x6F, 0x69, 0x6E, 0x74, 0x20, 0x31, 0x20, 0x73, 0x74, 0x65, 0x70, 0x20, 0x67, 0x65, 0x6E,
   0x65, 0x72, 0x61, 0x74, 0x6F, 0x72, 0x22, 0x2C, 0x0A, 0x09, 0x09, 0x22, 0x4A, 0x6F, 0x69, 0x6E,
   0x74, 0x20, 0x4E, 0x75, 0x6D, 0x62, 0x65, 0x72, 0x22, 0x3A, 0x09, 0x09, 0x31, 0x2C, 0x0A, 0x09,
   0x09, 0x22, 0x53, 0x74, 0x65, 0x70, 0x20, 0x50, 0x69, 0x6E, 0x22, 0x3A, 0x20, 0x09, 0x09, 0x22,
   0x47, 0x50, 0x30, 0x34, 0x22, 0x2C, 0x0A, 0x09, 0x09, 0x22, 0x44, 0x69, 0x72, 0x65, 0x63, 0x74,
   0x69, 0x6F, 0x6E, 0x20, 0x50, 0x69, 0x6E, 0x22, 0x3A, 0x20, 0x09, 0x22, 0x47, 0x50, 0x30, 0x35,
   0x22, 0x0A, 0x09, 0x7D, 0x2C, 0x0A, 0x09, 0x7B, 0x0A, 0x09, 0x22, 0x54, 0x68, 0x72, 0x65, 0x61,
   0x64, 0x22, 0x3A, 0x20, 0x22, 0x42, 0x61, 0x73, 0x65, 0x22, 0x2C, 0x0A, 0x09, 0x22, 0x54, 0x79,
   0x70, 0x65, 0x22, 0x3A, 0x20, 0x22, 0x53, 0x74, 0x65, 0x70, 0x67, 0x65, 0x6E, 0x22, 0x2C, 0x0A,
   0x09, 0x09, 0x22, 0x43, 0x6F, 0x6D, 0x6D, 0x65, 0x6E, 0x74, 0x22, 0x3A, 0x09, 0x09, 0x09, 0x22,
   0x5A, 0x20, 0x2D, 0x20, 0x4A, 0x6F, 0x69, 0x6E, 0x74, 0x20, 0x32, 0x20, 0x73, 0x74, 0x65, 0x70,
   0x20, 0x67, 0x65, 0x6E, 0x65, 0x72, 0x61, 0x74, 0x6F, 0x72, 0x22, 0x2C, 0x0A, 0x09, 0x09, 0x22,
   0x4A, 0x6F, 0x69, 0x6E, 0x74, 0x20, 0x4E, 0x75, 0x6D, 0x62, 0x65, 0x72, 0x22, 0x3A, 0x09, 0x09,
   0x32, 0x2C, 0x0A, 0x09, 0x09, 0x22, 0x53, 0x74, 0x65, 0x70, 0x20, 0x50, 0x69, 0x6E, 0x22, 0x3A,
   0x20, 0x09, 0x09, 0x22, 0x47, 0x50, 0x30, 0x36, 0x22, 0x2C, 0x0A, 0x09, 0x09, 0x22, 0x44, 0x69,
   0x72, 0x65, 0x63, 0x74, 0x69, 0x6F, 0x6E, 0x20, 0x50, 0x69, 0x6E, 0x22, 0x3A, 0x20, 0x09, 0x22,
   0x47, 0x50, 0x30, 0x37, 0x22, 0x0A, 0x09, 0x7D, 0x2C, 0x0A, 0x09, 0x7B, 0x0A, 0x09, 0x22, 0x54,
   0x68, 0x72, 0x65, 0x61, 0x64, 0x22, 0x3A, 0x20, 0x22, 0x42, 0x61, 0x73, 0x65, 0x22, 0x2C, 0x0A,
   0x09, 0x22, 0x54, 0x79, 0x70, 0x65, 0x22, 0x3A, 0x20, 0x22, 0x53, 0x74, 0x65, 0x70, 0x67, 0x65,
   0x6E, 0x22, 0x2C, 0x0A, 0x09, 0x09, 0x22, 0x43, 0x6F, 0x6D, 0x6D, 0x65, 0x6E, 0x74, 0x22, 0x3A,
   0x09, 0x09, 0x09, 0x22, 0x41, 0x20, 0x2D, 0x20, 0x4A, 0x6F, 0x69, 0x6E, 0x74, 0x20, 0x33, 0x20,
   0x73, 0x74, 0x65, 0x70, 0x20, 0x67, 0x65, 0x6E, 0x65, 0x72, 0x61, 0x74, 0x6F, 0x72, 0x22, 0x2C,
   0x0A, 0x09, 0x09, 0x22, 0x4A, 0x6F, 0x69, 0x6E, 0x74, 0x20, 0x4E, 0x75, 0x6D, 0x62, 0x65, 0x72,
   0x22, 0x3A, 0x09, 0x09, 0x33, 0x2C, 0x0A, 0x09, 0x09, 0x22, 0x53, 0x74, 0x65, 0x70, 0x20, 0x50,
   0x69, 0x6E, 0x22, 0x3A, 0x20, 0x09, 0x09, 0x22, 0x47, 0x50, 0x30, 0x38, 0x22, 0x2C, 0x0A, 0x09,
   0x09, 0x22, 0x44, 0x69, 0x72, 0x65, 0x63, 0x74, 0x69, 0x6F, 0x6E, 0x20, 0x50, 0x69, 0x6E, 0x22,
   0x3A, 0x20, 0x09, 0x22, 0x47, 0x50, 0x30, 0x39, 0x22, 0x0A, 0x09, 0x7D, 0x2C, 0x0A, 0x09, 0x7B,
   0x0A, 0x09, 0x22, 0x54, 0x68, 0x72, 0x65, 0x61, 0x64, 0x22, 0x3A, 0x20, 0x22, 0x53, 0x65, 0x72,
   0x76, 0x6F, 0x22, 0x2C, 0x0A, 0x09, 0x22, 0x54, 0x79, 0x70, 0x65, 0x22, 0x3A, 0x20, 0x22, 0x44,
   0x69, 0x67, 0x69, 0x74, 0x61, 0x6C, 0x20, 0x50, 0x69, 0x6E, 0x22, 0x2C, 0x0A, 0x09, 0x09, 0x22,
   0x43, 0x6F, 0x6D, 0x6D, 0x65, 0x6E, 0x74, 0x22, 0x3A, 0x09, 0x09, 0x09, 0x22, 0x58, 0x5F, 0x4C,
   0x69, 0x6D, 0x69, 0x74, 0x22, 0x2C, 0x0A, 0x09, 0x09, 0x22, 0x50, 0x69, 0x6E, 0x22, 0x3A, 0x09,
   0x09, 0x09, 0x09, 0x22, 0x47, 0x50, 0x31, 0x31, 0x22, 0x2C, 0x0A, 0x09, 0x09, 0x22, 0x4D, 0x6F,
   0x64, 0x65, 0x22, 0x3A, 0x09, 0x09, 0x09, 0x09, 0x22, 0x49, 0x6E, 0x70, 0x75, 0x74, 0x22, 0x2C,
   0x0A, 0x09, 0x09, 0x22, 0x44, 0x61, 0x74, 0x61, 0x20, 0x42, 0x69, 0x74, 0x22, 0x3A, 0x09, 0x09,
   0x09, 0x30, 0x2C, 0x0A, 0x09, 0x09, 0x22, 0x49, 0x6E, 0x76, 0x65, 0x72, 0x74, 0x22, 0x3A, 0x09,
   0x09, 0x09, 0x22, 0x46, 0x61, 0x6C, 0x73, 0x65, 0x22, 0x0A, 0x09, 0x7D, 0x09, 0x2C, 0x0A, 0x09,
   0x7B, 0x0A, 0x09, 0x22, 0x54, 0x68, 0x72, 0x65, 0x61, 0x64, 0x22, 0x3A, 0x20, 0x22, 0x53, 0x65,
   0x72, 0x76, 0x6F, 0x22, 0x2C, 0x0A, 0x09, 0x22, 0x54, 0x79, 0x70, 0x65, 0x22, 0x3A, 0x20, 0x22,
   0x44, 0x69, 0x67, 0x69, 0x74, 0x61, 0x6C, 0x20, 0x50, 0x69, 0x6E, 0x22, 0x2C, 0x0A, 0x09, 0x09,
   0x22, 0x43, 0x6F, 0x6D, 0x6D, 0x65, 0x6E, 0x74, 0x22, 0x3A, 0x09, 0x09, 0x09, 0x22, 0x59, 0x5F,
   0x4C, 0x69, 0x6D, 0x69, 0x74, 0x22, 0x2C, 0x0A, 0x09, 0x09, 0x22, 0x50, 0x69, 0x6E, 0x22, 0x3A,
   0x09, 0x09, 0x09, 0x09, 0x22, 0x47, 0x50, 0x31, 0x32, 0x22, 0x2C, 0x0A, 0x09, 0x09, 0x22, 0x4D,
   0x6F, 0x64, 0x65, 0x22, 0x3A, 0x09, 0x09, 0x09, 0x09, 0x22, 0x49, 0x6E, 0x70, 0x75, 0x74, 0x22,
   0x2C, 0x0A, 0x09, 0x09, 0x22, 0x44, 0x61, 0x74, 0x61, 0x20, 0x42, 0x69, 0x74, 0x22, 0x3A, 0x09,
   0x09, 0x09, 0x31, 0x2C, 0x0A, 0x09, 0x09, 0x22, 0x49, 0x6E, 0x76, 0x65, 0x72, 0x74, 0x22, 0x3A,
   0x09, 0x09, 0x09, 0x22, 0x54, 0x72, 0x75, 0x65, 0x22, 0x0A, 0x09, 0x7D, 0x2C, 0x0A, 0x09, 0x7B,
   0x0A, 0x09, 0x22, 0x54, 0x68, 0x72, 0x65, 0x61, 0x64, 0x22, 0x3A, 0x20, 0x22, 0x53, 0x65, 0x72,
   0x76, 0x6F, 0x22, 0x2C, 0x0A, 0x09, 0x22, 0x54, 0x79, 0x70, 0x65, 0x22, 0x3A, 0x20, 0x22, 0x44,
   0x69, 0x67, 0x69, 0x74, 0x61, 0x6C, 0x20, 0x50, 0x69, 0x6E, 0x22, 0x2C, 0x0A, 0x09, 0x09, 0x22,
   0x43, 0x6F, 0x6D, 0x6D, 0x65, 0x6E, 0x74, 0x22, 0x3A, 0x09, 0x09, 0x09, 0x22, 0x5A, 0x5F, 0x4C,
   0x69, 0x6D, 0x69, 0x74, 0x22, 0x2C, 0x0A, 0x09, 0x09, 0x22, 0x50, 0x69, 0x6E, 0x22, 0x3A, 0x09,
   0x09, 0x09, 0x09, 0x22, 0x47, 0x50, 0x31, 0x33, 0x22, 0x2C, 0x0A, 0x09, 0x09, 0x22, 0x4D, 0x6F,
   0x64, 0x65, 0x22, 0x3A, 0x09, 0x09, 0x09, 0x09, 0x22, 0x49, 0x6E, 0x70, 0x75, 0x74, 0x22, 0x2C,
   0x0A, 0x09, 0x09, 0x22, 0x44, 0x61, 0x74, 0x61, 0x20, 0x42, 0x69, 0x74, 0x22, 0x3A, 0x09, 0x09,
   0x09, 0x32, 0x2C, 0x0A, 0x09, 0x09, 0x22, 0x49, 0x6E, 0x76, 0x65, 0x72, 0x74, 0x22, 0x3A, 0x09,
   0x09, 0x09, 0x22, 0x46, 0x61, 0x6C, 0x73, 0x65, 0x22, 0x0A, 0x09, 0x7D, 0x0A, 0x09, 0x5D, 0x0A,
   0x7D, 0x0A]

/-- The storage region starts where the upload region ends. -/
theorem upload_add_region : JSON_UPLOAD_ADDRESS + REGION_SIZE = JSON_STORAGE_ADDRESS := rfl

end Remora
