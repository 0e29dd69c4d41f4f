import Angelic.Lib.Poll

namespace Angelic.Model.Disk
open Lib

/-! The storage drivers. A call gets the values that the device's registers show, and its result comes with the
commands that the device was sent. -/

/-- The memory from the caller's pointer on. -/
abbrev Buffer := Nat → UInt8

/-! `ata.c`. The looks of `ata_400ns_delay` decide nothing and are left out. -/

def ATA_SR_BSY : UInt8 := 0x80
def ATA_SR_DRQ : UInt8 := 0x08
def ATA_SR_ERR : UInt8 := 0x01

def ATA_CMD_WRITE_SECTORS : UInt8 := 0x30
def ATA_CMD_FLUSH_CACHE : UInt8 := 0xE7

def ATA_DATA_DRIVE : UInt32 := 1

/-- The waits of `ata_write_sectors`: before the command, before each sector, after the last one and after the
flush. -/
inductive AtaWait where
  | ready
  | busy (s : Nat)
  | drq (s : Nat)
  | last
  | flush
  deriving DecidableEq

structure AtaRegs where
  drive_head : UInt8
  sector_cnt : UInt8
  lba_lo : UInt8
  lba_mid : UInt8
  lba_hi : UInt8
  deriving DecidableEq

/-- A command with the registers it was given in and the words that followed it. -/
structure AtaCommand where
  command : UInt8
  regs : AtaRegs
  data : List UInt16
  deriving DecidableEq

/-- `commands` are those of the last call, the latest first. -/
structure Ata where
  regs : AtaRegs
  commands : List AtaCommand
  deriving DecidableEq

def Ata.issue (a : Ata) (command : UInt8) : Ata := { a with commands := ⟨command, a.regs, []⟩ :: a.commands }

def Ata.outw (a : Ata) (v : UInt16) : Ata :=
  { a with commands := a.commands.modifyHead fun c => { c with data := c.data ++ [v] } }

def ata_wait_not_busy (status : Nat → UInt8) : Int :=
  (poll (fun v => if v &&& ATA_SR_BSY = 0 then some 0 else none) status 0x10000000).getD (-1)

def ata_wait_drq (status : Nat → UInt8) : Int :=
  (poll (fun v =>
    if v &&& ATA_SR_ERR ≠ 0 then some (-1) else if v &&& ATA_SR_DRQ ≠ 0 then some 0 else none)
    status 0x10000000).getD (-1)

def ata_select_drive (drive lba : UInt32) (a : Ata) : Ata :=
  let val := ((0xE0 : UInt32) ||| ((drive &&& 1) <<< 4) ||| ((lba >>> 24) &&& 0x0F)).toUInt8
  { a with regs := { a.regs with drive_head := val } }

/-- The `i`th word behind the pointer. -/
def word (buf : Buffer) (i : Nat) : UInt16 := (buf (2 * i)).toUInt16 ||| ((buf (2 * i + 1)).toUInt16 <<< 8)

/-- The loop of `ata_write_sectors` from sector `s` on, with `n` sectors left. -/
def ataSectors (status : AtaWait → Nat → UInt8) (buf : Buffer) : Nat → Nat → Ata → Int × Ata
  | _, 0, a => (0, a)
  | s, n + 1, a =>
    if ata_wait_not_busy (status (.busy s)) ≠ 0 then (-1, a)
    else if ata_wait_drq (status (.drq s)) ≠ 0 then (-1, a)
    else ataSectors status buf (s + 1) n ((List.range 256).foldl (fun a w => a.outw (word buf (256 * s + w))) a)

def ata_write_sectors (status : AtaWait → Nat → UInt8) (drive lba : UInt32) (count : UInt8) (buf : Buffer) (a : Ata) :
    Int × Ata :=
  let a := { a with commands := [] }
  if ata_wait_not_busy (status .ready) ≠ 0 then (-1, a)
  else
    let a := ata_select_drive drive lba a
    let a := { a with regs := { a.regs with
      sector_cnt := count
      lba_lo := (lba &&& 0xFF).toUInt8
      lba_mid := ((lba >>> 8) &&& 0xFF).toUInt8
      lba_hi := ((lba >>> 16) &&& 0xFF).toUInt8 } }
    let a := a.issue ATA_CMD_WRITE_SECTORS
    match ataSectors status buf 0 count.toNat a with
    | (result, a) =>
      if result ≠ 0 then (-1, a)
      else if ata_wait_not_busy (status .last) ≠ 0 then (-1, a)
      else
        let a := ata_select_drive drive 0 a
        let a := a.issue ATA_CMD_FLUSH_CACHE
        if ata_wait_not_busy (status .flush) ≠ 0 then (-1, a) else (0, a)

/-! `ahci.c`. The looks at `PORT_TFD` before a command end with or without the device, and are left out. -/

def PIS_TFES : UInt32 := 0x40000000
def AHCI_DMA_SECTORS : UInt16 := 128
def FIS_TYPE_H2D : UInt8 := 0x27
def FIS_FLAG_CMD : UInt8 := 0x80
def ATA_WRITE_DMA_EXT : UInt8 := 0x35
def ATA_FLUSH_EXT : UInt8 := 0xEA

/-- `fis_h2d_t`, without the fields that stay 0. -/
structure Fis where
  fis_type : UInt8
  flags : UInt8
  command : UInt8
  device : UInt8
  lba0 : UInt8
  lba1 : UInt8
  lba2 : UInt8
  lba3 : UInt8
  lba4 : UInt8
  lba5 : UInt8
  countl : UInt8
  counth : UInt8
  deriving DecidableEq

/-- A command of slot 0: what `s_cmd_tbl`, `s_cmd_list[0]` and `s_dma_buf` hold when `PORT_CI` is written. -/
structure HbaCommand where
  fis : Fis
  flags : UInt16
  prdtl : UInt16
  dbc : UInt32
  data : List UInt8
  deriving DecidableEq

/-- `commands` are those of the last call, the latest first. -/
structure Hba where
  g_port : Int
  s_dma_buf : List UInt8
  commands : List HbaCommand
  deriving DecidableEq

/-- The waits for slot 0. -/
inductive HbaWait where
  | transfer
  | flush
  deriving DecidableEq

/-- `port i` is what look `i` reads from `PORT_IS` and `PORT_CI`. -/
def port_wait_slot0 (port : Nat → UInt32 × UInt32) : Int :=
  (poll (fun (port_is, port_ci) =>
    if port_is &&& PIS_TFES ≠ 0 then some (-1) else if port_ci &&& 1 = 0 then some 0 else none)
    port 0x2000000).getD (-1)

def port_flush (port : HbaWait → Nat → UInt32 × UInt32) (h : Hba) : Int × Hba :=
  let fis : Fis := ⟨FIS_TYPE_H2D, FIS_FLAG_CMD, ATA_FLUSH_EXT, 0x40, 0, 0, 0, 0, 0, 0, 0, 0⟩
  (port_wait_slot0 (port .flush), { h with commands := ⟨fis, 5, 0, 0, h.s_dma_buf⟩ :: h.commands })

/-- `port_transfer` with `write` set. -/
def port_transfer (port : HbaWait → Nat → UInt32 × UInt32) (lba : UInt64) (count : UInt16) (buf : Buffer) (h : Hba) :
    Int × Hba :=
  if count = 0 ∨ AHCI_DMA_SECTORS < count then (-1, h)
  else
    let byte_count := count.toUInt32 * 512
    let h := { h with
      s_dma_buf := (List.range byte_count.toNat).map buf ++ h.s_dma_buf.drop byte_count.toNat }
    let fis : Fis :=
      ⟨FIS_TYPE_H2D, FIS_FLAG_CMD, ATA_WRITE_DMA_EXT, 0x40,
       (lba &&& 0xFF).toUInt8, ((lba >>> 8) &&& 0xFF).toUInt8, ((lba >>> 16) &&& 0xFF).toUInt8,
       ((lba >>> 24) &&& 0xFF).toUInt8, ((lba >>> 32) &&& 0xFF).toUInt8, ((lba >>> 40) &&& 0xFF).toUInt8,
       (count &&& 0xFF).toUInt8, ((count >>> 8) &&& 0xFF).toUInt8⟩
    let h := { h with commands := ⟨fis, 0x45, 1, byte_count - 1, h.s_dma_buf⟩ :: h.commands }
    if port_wait_slot0 (port .transfer) ≠ 0 then (-1, h)
    else
      -- a flush that fails is only printed
      let (_, h) := port_flush port h
      (0, h)

def ahci_write_sectors (port : HbaWait → Nat → UInt32 × UInt32) (lba : UInt64) (count : UInt16) (buf : Buffer)
    (h : Hba) : Int × Hba :=
  let h := { h with commands := [] }
  if h.g_port < 0 then (-1, h) else port_transfer port lba count buf h

/-! `disk.c` -/

inductive disk_backend_t where
  | DISK_NONE
  | DISK_ATA_PIO
  | DISK_AHCI
  deriving DecidableEq

open disk_backend_t

structure Storage where
  g_backend : disk_backend_t
  ata : Ata
  hba : Hba
  deriving DecidableEq

/-- What the registers of both devices show to each look of a call. -/
structure Shown where
  status : AtaWait → Nat → UInt8
  port : HbaWait → Nat → UInt32 × UInt32

def disk_write_sectors (shown : Shown) (lba : UInt64) (count : UInt8) (buf : Buffer) (d : Storage) : Int × Storage :=
  match d.g_backend with
  | DISK_AHCI =>
    let (result, hba) := ahci_write_sectors shown.port lba count.toUInt16 buf d.hba
    (result, { d with hba := hba })
  | DISK_ATA_PIO =>
    let (result, ata) := ata_write_sectors shown.status ATA_DATA_DRIVE lba.toUInt32 count buf d.ata
    (result, { d with ata := ata })
  | DISK_NONE => (-1, d)

end Angelic.Model.Disk
