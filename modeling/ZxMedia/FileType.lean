/-!
# Types of files

The files that emulators of the machine exchange, each with the category it belongs to.
-/

namespace ZxMedia

/-- What a file holds, as far as its name and content tell. -/
inductive FileType where
  | unknown | rzx | sna | snp | sp | szx | z80 | zxs | slt | dck | if2Rom | mdr | tap | spc | sta
  | ltp | tzx | warajevoTap | dsk | scl | trd | bz2 | gz | csw
deriving Repr, DecidableEq

/-- The broad category of a file. -/
inductive FileClass where
  | unknown | tape | snapshot | disk | recording | compressed | cartridge | microdrive
deriving Repr, DecidableEq

namespace FileType

/-- The category of each type. -/
def fileClass : FileType → FileClass
  | unknown => .unknown
  | rzx => .recording
  | sna | snp | sp | szx | z80 | zxs | slt => .snapshot
  | dck | if2Rom => .cartridge
  | mdr => .microdrive
  | tap | spc | sta | ltp | tzx | warajevoTap | csw => .tape
  | dsk | scl | trd => .disk
  | bz2 | gz => .compressed

/-- The name of a type as messages show it. -/
def name : FileType → String
  | unknown => "Unknown"
  | rzx => "Rzx"
  | sna => "Sna"
  | snp => "Snp"
  | sp => "Sp"
  | szx => "Szx"
  | z80 => "Z80"
  | zxs => "Zxs"
  | slt => "Slt"
  | dck => "Dck"
  | if2Rom => "If2Rom"
  | mdr => "Mdr"
  | tap => "Tap"
  | spc => "Spc"
  | sta => "Sta"
  | ltp => "Ltp"
  | tzx => "Tzx"
  | warajevoTap => "WarajevoTap"
  | dsk => "Dsk"
  | scl => "Scl"
  | trd => "Trd"
  | bz2 => "Bz2"
  | gz => "Gz"
  | csw => "Csw"

end FileType

/-- The name of a category as messages show it. -/
def FileClass.name : FileClass → String
  | unknown => "Unknown"
  | tape => "Tape"
  | snapshot => "Snapshot"
  | disk => "Disk"
  | recording => "Recording"
  | compressed => "Compressed"
  | cartridge => "Cartridge"
  | microdrive => "Microdrive"

end ZxMedia
